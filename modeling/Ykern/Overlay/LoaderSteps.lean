import Ykern.Overlay.LoaderMemory

/-!
# What the overlay loader holds

Every routine of the loader gives back what it asked for, or leaves it in the overlay or in the
error it returns, whichever requests are refused (`Reads`). The one exception is the type hint
of an attribute for which there is no room in its set: at most one block, and only if a request
was refused.

When no request is refused, the routine does what the loader by value does. Even when one is, a
routine that ends well has read the same events, and its arrays have as many items and slots as
by value (`Follows`), so that its writes are below the slots where those by value are. All this is
said of each routine together, and the loops are gone through once (`keyLoop_reads`).
-/

set_option autoImplicit false

namespace Ykern.Overlay.Memory

open Alloc Holder

variable {grants : Nat → Bool} {held more : Multiset Block}

/-! ## Errors -/

@[simp] theorem blocks_plain (msg : String) : blocks (Failure.plain msg) = 0 := rfl

@[simp] theorem messages_plain (msg : String) : (Failure.plain msg).messages = [msg] := rfl

@[simp] theorem blocks_map_block (s : Option Str) : blocks (s.map (·.block)) = blocks s := by
  cases s <;> rfl

theorem errorDestroy_frees (e : Failure) :
    Does grants (blocks e) (errorDestroy e) fun _ held' => held' = 0 := by
  have frees : Does grants (blocks e + 0) (errorDestroy e) fun _ held' => held' = 0 := by
    refine Does.forM _ fun p _ => ?_
    refine Does.touch_then (Multiset.mem_add.mpr (.inl (Multiset.mem_singleton_self p))) ?_
    rw [add_zero]
    exact Does.freeBlock (some p)
  rwa [add_zero] at frees

/-- An error that is chained is held by the chain, or it is destroyed. -/
theorem errorChain_holds (prev : Failure) :
    Does grants (blocks prev) (errorChain prev) fun cause held' =>
      held' = blocks (cause.map Prod.fst) ∧
        (Refuses grants ∨ cause.map Prod.snd = prev.messages) := by
  refine Does.malloc_then fun p refused => ?_
  cases p with
  | none =>
      rw [blocks_none, zero_add]
      refine (errorDestroy_frees prev).bind ?_
      rintro ⟨⟩ _ rfl
      exact .pure ⟨rfl, .inl (refused rfl)⟩
  | some p => exact .pure ⟨by rw [List.map_cons, blocks_cons]; rfl, .inr rfl⟩

theorem causedBy_holds (msg : String) (prev : Failure) :
    Does grants (blocks prev) (causedBy msg prev) fun e held' =>
      held' = blocks e ∧ (Refuses grants ∨ e.messages = msg :: prev.messages) := by
  refine (errorChain_holds prev).bind ?_
  rintro cause _ ⟨rfl, told⟩
  exact .pure ⟨rfl, told.imp_right fun same => by rw [Failure.messages, same]⟩

theorem parseError_holds (next : Option String) :
    Does grants 0 (parseError next) fun e held' =>
      held' = blocks e ∧ (Refuses grants ∨ e.messages = next.toList ++ ["yaml: parse error"]) := by
  cases next with
  | none => exact .pure ⟨rfl, .inr rfl⟩
  | some msg => exact causedBy_holds msg (.plain "yaml: parse error")

theorem freeStr_then {α : Type} {s : Option Str} {f : Unit → Alloc α}
    {post : α → Multiset Block → Prop} (split : held = blocks s + more)
    (rest : Does grants more (f ()) post) : Does grants held (freeStr s >>= f) post :=
  Does.free_then (by rw [blocks_map_block, split]) rest

theorem freeStr_frees (s : Option Str) :
    Does grants (blocks s) (freeStr s) fun _ held' => held' = 0 := by
  have frees : Does grants (blocks (s.map (·.block))) (freeStr s) fun _ held' => held' = 0 :=
    Does.freeBlock _
  rwa [blocks_map_block] at frees

/-! ## What a routine leaves -/

/-- What is held after a routine: an error, and the state, or what is kept of it after an
error. -/
def heldBy {σ : Type} [Holder σ] (kept : σ → Multiset Block) (r : Reading σ) : Multiset Block :=
  match r.result with
  | .error e => blocks e + kept r.state
  | .ok _ => blocks r.state

/-- What nothing leads to any more: at most one block, after an error, if a request was refused. -/
structure Lost {α : Type} (grants : Nat → Bool) (result : Except Failure α)
    (lost : Multiset Block) : Prop where
  few : lost.card ≤ 1
  cause : lost ≠ 0 → Refuses grants ∧ ∃ e, result = .error e

/-- The routine ended as the one by value. -/
structure Agrees {σ τ : Type} (rep : σ → τ → Prop) (r : Reading σ) (R : Overlay.Reading τ) :
    Prop where
  result : r.result.mapError Failure.messages = R.result
  state : rep r.state R.state
  rest : r.rest = R.rest

/-- The routine by value ended well at the same event too, with a state that this one is good
next to. -/
structure Follows {σ τ : Type} (good : σ → τ → Prop) (r : Reading σ) (R : Overlay.Reading τ) :
    Prop where
  result : R.result = .ok ()
  state : good r.state R.state
  rest : r.rest = R.rest

/-- What a routine leaves that reads from these events: nothing is lost but a hint, the state is
good next to one by value, which is that of the routine by value if it ended well, and unless a
request was refused it is what the routine by value leaves. -/
structure Reads {σ τ : Type} [Holder σ] (grants : Nat → Bool) (kept : σ → Multiset Block)
    (good rep : σ → τ → Prop) (evs : List YamlEvent) (R : Overlay.Reading τ) (r : Reading σ)
    (held : Multiset Block) : Prop where
  balance : ∃ lost, held = heldBy kept r + lost ∧ Lost grants r.result lost
  usable : ∃ S, good r.state S
  follows : r.result = .ok () → Follows good r R
  shorter : r.rest.length ≤ evs.length
  agrees : Refuses grants ∨ Agrees rep r R

theorem Lost.nothing {α : Type} (result : Except Failure α) : Lost grants result 0 :=
  ⟨Nat.zero_le _, fun lost => absurd rfl lost⟩

/-- After a result nothing is lost. -/
theorem Lost.of_ok {α : Type} {a : α} {lost : Multiset Block} (is : Lost grants (.ok a) lost) :
    lost = 0 := by
  by_contra something
  obtain ⟨-, e, same⟩ := is.cause something
  cases same

namespace Reads

variable {σ τ : Type} [Holder σ] {kept : σ → Multiset Block} {good rep : σ → τ → Prop}
  {evs : List YamlEvent} {R R' : Overlay.Reading τ} {r : Reading σ}

/-- When a routine failed as a request was refused, nothing is said of the routine by value. -/
theorem refused (reads : Reads grants kept good rep evs R r held) {e : Failure}
    (failed : r.result = .error e) (refuses : Refuses grants) :
    Reads grants kept good rep evs R' r held :=
  ⟨reads.balance, reads.usable, fun ended => (nomatch failed.symm.trans ended), reads.shorter,
    .inl refuses⟩

/-- A routine that reads on from what another one left. -/
theorem after {evs' : List YamlEvent} (reads : Reads grants kept good rep evs R r held)
    (later : evs.length ≤ evs'.length) : Reads grants kept good rep evs' R r held :=
  ⟨reads.balance, reads.usable, reads.follows, Nat.le_trans reads.shorter later, reads.agrees⟩

/-- What a routine leaves that ends with an error of its own. -/
theorem of_error {e : Failure} {s : σ} {S : τ} {rest : List YamlEvent} (isGood : good s S)
    (shorter : rest.length ≤ evs.length)
    (told : Refuses grants ∨ (rep s R.state ∧ rest = R.rest ∧ R.result = .error e.messages)) :
    Reads grants kept good rep evs R ⟨.error e, s, rest⟩ (blocks e + kept s) := by
  refine ⟨⟨0, (add_zero _).symm, .nothing _⟩, ⟨S, isGood⟩, nofun, shorter, told.imp_right ?_⟩
  rintro ⟨same, left, result⟩
  exact ⟨by rw [result]; rfl, same, left⟩

/-- What a routine leaves that ends with an error without a cause. -/
theorem of_fail {msg : String} {s : σ} {S : τ} {rest : List YamlEvent} (isGood : good s S)
    (shorter : rest.length ≤ evs.length)
    (told : Refuses grants ∨ (rep s R.state ∧ rest = R.rest ∧ R.result = .error [msg])) :
    Reads grants kept good rep evs R ⟨.error (.plain msg), s, rest⟩ (kept s) := by
  have left : Reads grants kept good rep evs R ⟨.error (.plain msg), s, rest⟩
      (blocks (Failure.plain msg) + kept s) := of_error isGood shorter told
  rwa [blocks_plain, zero_add] at left

/-- What a routine leaves that ends well. -/
theorem of_ok {s : σ} {rest : List YamlEvent} (follows : Follows good ⟨.ok (), s, rest⟩ R)
    (shorter : rest.length ≤ evs.length) (same : Refuses grants ∨ rep s R.state) :
    Reads grants kept good rep evs R ⟨.ok (), s, rest⟩ (blocks s) := by
  refine ⟨⟨0, (add_zero _).symm, .nothing _⟩, ⟨R.state, follows.state⟩, fun _ => follows, shorter,
    same.imp_right fun same => ?_⟩
  exact ⟨by rw [follows.result]; rfl, same, follows.rest⟩

end Reads

/-! ## Loops over keys -/

section Loop

variable {σ τ : Type} [Holder σ] {kept : σ → Multiset Block} {good rep : σ → τ → Prop}
  {fits : τ → Prop}

theorem eventDelete_then {α : Type} {ev : Event} {f : Unit → Alloc α}
    {post : α → Multiset Block → Prop} (split : held = {ev.block} + more)
    (rest : Does grants more (f ()) post) : Does grants held (eventDelete ev >>= f) post :=
  Does.free_then split rest

/-- The next event, or none. -/
theorem nextEvent_then {α : Type} {evs : List YamlEvent}
    {f : Option Event × List YamlEvent → Alloc α} {post : α → Multiset Block → Prop}
    (none : Refuses grants ∨ evs = [] → Does grants held (f (none, [])) post)
    (some : ∀ b ev rest, evs = ev :: rest → Does grants ({b} + held) (f (some ⟨b, ev⟩, rest)) post) :
    Does grants held (nextEvent evs >>= f) post := by
  cases evs with
  | nil => exact none (.inr rfl)
  | cons ev rest =>
      rw [nextEvent, bind_assoc]
      refine Does.malloc_then fun p refused => ?_
      cases p with
      | none =>
          rw [blocks_none, zero_add]
          exact none (.inl (refused rfl))
      | some b => exact some b ev rest rfl

theorem takeScalar_then {α : Type} {ev : Event} {text : Bytes} {f : Option Str → Alloc α}
    {post : α → Multiset Block → Prop} (member : ev.block ∈ held)
    (rest : ∀ s : Option Str, (s = none → Refuses grants) →
      (∀ str, s = some str → str.chars = Overlay.takeScalar text) →
        Does grants (blocks s + held) (f s) post) :
    Does grants held (takeScalar ev text >>= f) post := by
  rw [takeScalar, bind_assoc]
  refine Does.touch_then member ?_
  rw [bind_assoc]
  refine Does.malloc_then fun p refused => ?_
  cases p with
  | none => exact rest none (fun _ => refused rfl) nofun
  | some b =>
      refine rest (some ⟨b, Overlay.takeScalar text⟩) nofun ?_
      rintro _ ⟨⟩
      rfl

/-- What the body of a loop does with a key, next to the body of the loop by value, as far as the
state that one leaves fits. -/
def KeyReads (grants : Nat → Bool) (kept : σ → Multiset Block) (good rep : σ → τ → Prop)
    (fits : τ → Prop) (onKey : Option Str → σ → List YamlEvent → Alloc (Reading σ))
    (key : KeyReader τ) (bound : Nat) : Prop :=
  ∀ (k : Option Str) (chars : CStr) (s : σ) (S : τ) (evs : List YamlEvent),
    evs.length < bound → good s S → fits (key.read chars S evs).state →
      (k = none → Refuses grants) → (∀ str, k = some str → str.chars = chars) →
        (Refuses grants ∨ rep s S) → Does grants (blocks k + blocks s) (onKey k s evs)
          (Reads grants kept good rep evs (key.read chars S evs))

/-- **The loop over the keys of a mapping** does what that of the loader by value does. The
states on the way fit when the last one does. -/
theorem keyLoop_reads (next : Option String) (badKey : String) {release : σ → Alloc Unit}
    {onKey : Option Str → σ → List YamlEvent → Alloc (Reading σ)} {key : KeyReader τ} {bound : Nat}
    (back : ∀ S evs, fits (readLoop next badKey key S evs).state → fits S)
    (releases : ∀ s S, good s S →
      Does grants (blocks s) (release s) fun _ held' => held' = kept s)
    (each : KeyReads grants kept good rep fits onKey key bound) (steps : Nat)
    (within : steps ≤ bound) {s : σ} {S : τ} {evs : List YamlEvent} (enough : evs.length < steps)
    (isGood : good s S) (fit : fits (readLoop next badKey key S evs).state)
    (same : Refuses grants ∨ rep s S) :
    Does grants (blocks s) (keyLoop next badKey release onKey steps s evs)
      (Reads grants kept good rep evs (readLoop next badKey key S evs)) := by
  induction steps generalizing s S evs with
  | zero => exact absurd enough (Nat.not_lt_zero _)
  | succ steps ih =>
      rw [keyLoop]
      refine nextEvent_then ?_ ?_
      · intro ended
        refine (releases s S isGood).bind ?_
        rintro ⟨⟩ _ rfl
        refine (parseError_holds next).call_then (zero_add _).symm ?_
        rintro e _ ⟨rfl, told⟩
        refine .pure (.of_error isGood (Nat.zero_le _) ?_)
        rcases ended with refused | rfl
        · exact .inl refused
        · rcases told with refused | messages
          · exact .inl refused
          · refine same.imp_right fun represents => ?_
            rw [readLoop]
            exact ⟨represents, rfl, by rw [messages]⟩
      · rintro b ev rest rfl
        have shorter : rest.length ≤ (ev :: rest).length := Nat.le_succ _
        have fewer : rest.length < steps := Nat.lt_of_succ_lt_succ enough
        -- What happens at an event that is neither a key nor the end.
        have other (bad : readLoop next badKey key S (ev :: rest) = ⟨.error [badKey], S, rest⟩) :
            Does grants ({b} + blocks s) (do
              eventDelete ⟨b, ev⟩
              release s
              fail badKey s rest)
              (Reads grants kept good rep (ev :: rest)
                (readLoop next badKey key S (ev :: rest))) := by
          refine eventDelete_then rfl ((releases s S isGood).bind ?_)
          rintro ⟨⟩ _ rfl
          refine .pure (.of_fail isGood shorter (same.imp_right fun represents => ?_))
          rw [bad]
          exact ⟨represents, rfl, rfl⟩
        cases ev with
        | mappingEnd =>
            have ended : readLoop next badKey key S (.mappingEnd :: rest) = ⟨.ok (), S, rest⟩ := by
              rw [readLoop]
            rw [ended]
            exact eventDelete_then rfl (.pure (.of_ok ⟨rfl, isGood, rfl⟩ shorter same))
        | scalar text =>
            -- What the loop by value comes to after this key.
            have failed {E : Error} (result : (key.read (Overlay.takeScalar text) S rest).result =
                .error E) : readLoop next badKey key S (.scalar text :: rest) =
                  key.read (Overlay.takeScalar text) S rest := by
              rw [readLoop]
              simp only [result]
            have goesOn (result : (key.read (Overlay.takeScalar text) S rest).result = .ok ()) :
                readLoop next badKey key S (.scalar text :: rest) = readLoop next badKey key
                  (key.read (Overlay.takeScalar text) S rest).state
                  (key.read (Overlay.takeScalar text) S rest).rest := by
              rw [readLoop]
              simp only [result]
            have fit' : fits (key.read (Overlay.takeScalar text) S rest).state := by
              cases result : (key.read (Overlay.takeScalar text) S rest).result with
              | error E => rwa [failed result] at fit
              | ok u =>
                  rw [goesOn result] at fit
                  exact back _ _ fit
            refine takeScalar_then (Multiset.mem_add.mpr (.inl (Multiset.mem_singleton_self b))) ?_
            intro k refused chars
            refine eventDelete_then (add_left_comm _ _ _) ?_
            refine (each k _ s S rest (by omega) isGood fit' refused chars same).bind ?_
            intro r left reads
            obtain ⟨result, state, others⟩ := r
            cases result with
            | error e =>
                refine .pure (Reads.after ?_ shorter)
                rcases reads.agrees with refused | agrees
                · exact reads.refused rfl refused
                · rw [failed agrees.result.symm]
                  exact reads
            | ok u =>
                obtain ⟨lost, rfl, isLost⟩ := reads.balance
                obtain rfl := isLost.of_ok
                rw [add_zero]
                obtain ⟨read, isGood', remaining⟩ := reads.follows rfl
                have remaining : others = _ := remaining
                subst remaining
                rw [goesOn read] at fit ⊢
                have fewer' := Nat.lt_of_le_of_lt reads.shorter fewer
                refine (ih (by omega) fewer' isGood' fit ?_).mono ?_
                · exact reads.agrees.imp_right fun agrees => agrees.state
                · exact fun r' left' reads' => reads'.after (Nat.le_trans reads.shorter shorter)
        | _ => exact other (readLoop.eq_4 next badKey key S _ rest (by simp) (by simp))

end Loop

/-! ## Fields -/

section Fields

variable {κ κ' : Type} [Holder κ] {kept : κ → Multiset Block} {good rep : κ → κ' → Prop}
  {fits : κ' → Prop} {assign : κ' → CStr → CStr → κ'} {fields : Fields κ}

/-- How fields are stored, next to the assignments of the loader by value. -/
structure Fields.Mirrors (fields : Fields κ) (kept : κ → Multiset Block) (good rep : κ → κ' → Prop)
    (assign : κ' → CStr → CStr → κ') : Prop where
  releases : ∀ grants k, Does grants (blocks k) (fields.release k) fun _ held' => held' = kept k
  balance : ∀ slot ∈ fields.slots, ∀ k s,
    blocks k + blocks s = blocks (slot.set k s) + blocks (slot.get k)
  goodSet : ∀ slot ∈ fields.slots, ∀ k K s, good k K → good (slot.set k s) K
  goodByValue : ∀ k K key val, good k K → good k (assign K key val)
  assigned : ∀ slot ∈ fields.slots, ∀ (k : κ) (K : κ') (val : Str), rep k K →
    rep (slot.set k (some val)) (assign K slot.key val.chars)
  ignored : ∀ (K : κ') (key val : CStr), (∀ slot ∈ fields.slots, slot.key ≠ key) →
    assign K key val = K

/-- A value is stored, and what is left over is freed. -/
theorem Fields.Mirrors.store (mirrors : fields.Mirrors kept good rep assign) {key val : Option Str}
    {keyChars valChars : CStr} {k : κ} {K : κ'} {evs rest : List YamlEvent}
    (noKey : key = none → Refuses grants) (noVal : val = none → Refuses grants)
    (isKey : ∀ s, key = some s → s.chars = keyChars)
    (isVal : ∀ s, val = some s → s.chars = valChars) (isGood : good k K)
    (same : Refuses grants ∨ rep k K) (shorter : rest.length ≤ evs.length) :
    Does grants (blocks val + (blocks key + blocks k)) (fields.store key val k rest)
      (Reads grants kept good rep evs ⟨.ok (), assign K keyChars valChars, rest⟩) := by
  -- What a state is that good states are next to once the value is assigned.
  have follows {k : κ} (isGood : good k K) : Follows good ⟨.ok (), k, rest⟩
      ⟨.ok (), assign K keyChars valChars, rest⟩ :=
    ⟨rfl, mirrors.goodByValue k K _ _ isGood, rfl⟩
  -- A string that could not be copied is an error for some routines.
  have failing (msg : String) (refused : Refuses grants) :
      Does grants (blocks val + (blocks key + blocks k))
        (do
          freeStr key
          freeStr val
          fields.release k
          fail msg k rest)
        (Reads grants kept good rep evs ⟨.ok (), assign K keyChars valChars, rest⟩) := by
    refine freeStr_then (add_left_comm _ _ _) (freeStr_then rfl ?_)
    refine (mirrors.releases grants k).bind ?_
    rintro ⟨⟩ _ rfl
    exact .pure (.of_fail isGood shorter (.inl refused))
  have passing (refused : Refuses grants) :
      Does grants (blocks val + (blocks key + blocks k))
        (do
          freeStr key
          freeStr val
          pure ⟨.ok (), k, rest⟩)
        (Reads grants kept good rep evs ⟨.ok (), assign K keyChars valChars, rest⟩) := by
    refine freeStr_then (add_left_comm _ _ _) (freeStr_then rfl ?_)
    exact .pure (.of_ok (follows isGood) shorter (.inl refused))
  cases key with
  | none =>
      unfold Fields.store
      cases fields.noMemory with
      | some msg => exact failing msg (noKey rfl)
      | none => exact passing (noKey rfl)
  | some key =>
      cases val with
      | none =>
          unfold Fields.store
          cases fields.noMemory with
          | some msg => exact failing msg (noVal rfl)
          | none => exact passing (noVal rfl)
      | some val =>
          obtain rfl := isKey key rfl
          obtain rfl := isVal val rfl
          refine Does.touch_then ?_ ?_
          · exact Multiset.mem_add.mpr (.inr (Multiset.mem_add.mpr
              (.inl (Multiset.mem_singleton_self key.block))))
          cases stored : fields.assign k key.chars val with
          | some replaced =>
              obtain ⟨slot, found, rfl⟩ := Option.map_eq_some_iff.mp stored
              have member := List.mem_of_find?_eq_some found
              have isSlot : slot.key = key.chars := by simpa using List.find?_some found
              have split : blocks (some val) + (blocks (some key) + blocks k) =
                  blocks (slot.get k) +
                    (blocks (some key) + blocks (slot.set k (some val))) := by
                rw [add_left_comm, add_comm (blocks (some val)), mirrors.balance slot member,
                  add_comm (blocks (slot.set _ _)), add_left_comm]
              refine freeStr_then split (freeStr_then rfl ?_)
              refine .pure (.of_ok (follows (mirrors.goodSet slot member k K _ isGood)) shorter ?_)
              refine same.imp_right fun represents => ?_
              have assigned := mirrors.assigned slot member k K val represents
              rwa [isSlot] at assigned
          | none =>
              refine freeStr_then (add_left_comm _ _ _) (freeStr_then rfl ?_)
              refine .pure (.of_ok (follows isGood) shorter ?_)
              refine same.imp_right fun represents => ?_
              have missing := Option.map_eq_none_iff.mp stored
              have unknown : ∀ slot ∈ fields.slots, slot.key ≠ key.chars := by
                simpa using List.find?_eq_none.mp missing
              rwa [mirrors.ignored K _ _ unknown]

/-- **A field is read** as by value. -/
theorem Fields.Mirrors.read (mirrors : fields.Mirrors kept good rep assign) (bound : Nat) :
    KeyReads grants kept good rep fits fields.read (fieldReader fields.badValue assign) bound := by
  intro key keyChars k K evs _ isGood _ noKey isKey same
  refine nextEvent_then ?_ ?_
  · intro ended
    refine freeStr_then rfl ((mirrors.releases grants k).bind ?_)
    rintro ⟨⟩ _ rfl
    refine .pure (.of_fail isGood (Nat.zero_le _) ?_)
    rcases ended with refused | rfl
    · exact .inl refused
    · exact same.imp_right fun represents => ⟨represents, rfl, rfl⟩
  · rintro b ev rest rfl
    have shorter : rest.length ≤ (ev :: rest).length := Nat.le_succ _
    have other (bad : (fieldReader fields.badValue assign).read keyChars K (ev :: rest) =
        ⟨.error [fields.badValue], K, rest⟩) :
        Does grants ({b} + (blocks key + blocks k)) (do
          freeStr key
          fields.release k
          eventDelete ⟨b, ev⟩
          fail fields.badValue k rest)
          (Reads grants kept good rep (ev :: rest)
            ((fieldReader fields.badValue assign).read keyChars K (ev :: rest))) := by
      refine freeStr_then (add_left_comm _ _ _) ?_
      refine (mirrors.releases grants k).call_then (add_comm _ _) ?_
      rintro ⟨⟩ _ rfl
      refine eventDelete_then (add_comm _ _) (.pure (.of_fail isGood shorter ?_))
      rw [bad]
      exact same.imp_right fun represents => ⟨represents, rfl, rfl⟩
    cases ev with
    | scalar text =>
        refine takeScalar_then (Multiset.mem_add.mpr (.inl (Multiset.mem_singleton_self b))) ?_
        intro val noVal isVal
        refine eventDelete_then (add_left_comm _ _ _) ?_
        exact mirrors.store noKey noVal isKey isVal isGood same shorter
    | _ => exact other rfl

/-- **The fields of an entry are read** as by value. -/
theorem Fields.Mirrors.readAll (mirrors : fields.Mirrors kept good rep assign) {steps : Nat} {k : κ}
    {K : κ'} {evs : List YamlEvent} (enough : evs.length < steps) (isGood : good k K)
    (same : Refuses grants ∨ rep k K) :
    Does grants (blocks k) (fields.readAll steps k evs) (Reads grants kept good rep evs
      (readLoop none fields.badKey (fieldReader fields.badValue assign) K evs)) :=
  @keyLoop_reads grants κ κ' _ kept good rep (fun _ => True) none fields.badKey _ _ _ steps
    (fun _ _ fit => fit) (fun k _ _ => mirrors.releases grants k) (mirrors.read steps) steps
    (le_refl _) _ _ _ enough isGood trivial same

/-- Freeing the strings of an entry frees all it holds. -/
theorem Fields.release_frees {k : κ} (all : blocks k = blocks (fields.strings k)) :
    Does grants (blocks k) (fields.release k) fun _ held' => held' = 0 := by
  have frees : Does grants (blocks (fields.strings k) + 0) (fields.release k) fun _ held' =>
      held' = 0 := by
    refine Does.forM _ fun s _ => ?_
    rw [add_zero]
    exact freeStr_frees s
  rwa [add_zero, ← all] at frees

end Fields

/-! ## Steps of the routines -/

section Steps

variable {σ τ : Type} [Holder σ] {kept : σ → Multiset Block} {good rep : σ → τ → Prop}
  {fits : τ → Prop} {evs : List YamlEvent}

/-- An error is wrapped as by value. -/
theorem wrap_reads {r : Reading σ} {R : Overlay.Reading τ}
    (reads : Reads grants kept good rep evs R r held) (msg : String) :
    Does grants held (wrap msg r) (Reads grants kept good rep evs (R.wrap msg)) := by
  obtain ⟨result, state, rest⟩ := r
  cases result with
  | ok u =>
      have same : R.wrap msg = R := by
        rw [Overlay.Reading.wrap, (reads.follows rfl).result]
      rw [same]
      exact .pure reads
  | error e =>
      obtain ⟨lost, rfl, isLost⟩ := reads.balance
      refine (causedBy_holds msg e).call_then (add_assoc _ _ _) ?_
      rintro e' _ ⟨rfl, told⟩
      refine .pure ⟨⟨lost, (add_assoc _ _ _).symm, isLost.few, ?_⟩, reads.usable, nofun,
        reads.shorter, ?_⟩
      · exact fun something => ⟨(isLost.cause something).1, e', rfl⟩
      · rcases told with refused | messages
        · exact .inl refused
        · refine reads.agrees.imp_right fun agrees => ?_
          have failed := agrees.result
          have same : R.wrap msg = { R with result := .error (msg :: e.messages) } := by
            rw [Overlay.Reading.wrap, ← failed]
            rfl
          rw [same]
          exact ⟨by rw [← messages]; rfl, agrees.state, agrees.rest⟩

/-- The value of a key starts with an event of this type, or the entry is given up. -/
theorem expectThen_reads {expected : YamlEvent} {msg : String} {release : Alloc Unit}
    {extra : Multiset Block} {s : σ} {S : τ} {next : List YamlEvent → Alloc (Reading σ)}
    {nextByValue : List YamlEvent → Overlay.Reading τ} (isGood : good s S)
    (same : Refuses grants ∨ rep s S)
    (releases : Does grants (extra + blocks s) release fun _ held' => held' = kept s)
    (goes : ∀ rest, rest.length < evs.length →
      Overlay.expectThen expected msg S evs nextByValue = nextByValue rest →
        Does grants (extra + blocks s) (next rest)
          (Reads grants kept good rep rest (nextByValue rest))) :
    Does grants (extra + blocks s) (expectThen expected msg release s evs next)
      (Reads grants kept good rep evs
        (Overlay.expectThen expected msg S evs nextByValue)) := by
  -- The error of `expect_event_type`, wrapped.
  have wrapped (e : Failure) {rest : List YamlEvent} {E : Error}
      (shorter : rest.length ≤ evs.length) (told : Refuses grants ∨ e.messages = E)
      (byValue : Refuses grants ∨
        Overlay.expectThen expected msg S evs nextByValue = ⟨.error (msg :: E), S, rest⟩) :
      Does grants (blocks e + (extra + blocks s)) (do
        release
        let e ← causedBy msg e
        pure ⟨.error e, s, rest⟩)
        (Reads grants kept good rep evs (Overlay.expectThen expected msg S evs nextByValue)) := by
    refine releases.call_then (add_comm _ _) ?_
    rintro ⟨⟩ _ rfl
    refine (causedBy_holds msg e).call_then (add_comm _ _) ?_
    rintro e' _ ⟨rfl, told'⟩
    refine .pure (.of_error isGood shorter ?_)
    rcases told with refused | rfl
    · exact .inl refused
    rcases told' with refused | messages
    · exact .inl refused
    rcases byValue with refused | eq
    · exact .inl refused
    refine same.imp_right fun represents => ?_
    rw [eq, messages]
    exact ⟨represents, rfl, rfl⟩
  rw [expectThen, expectEventType, bind_assoc]
  refine nextEvent_then ?_ ?_
  · intro ended
    rw [bind_assoc]
    refine (causedBy_holds "yaml: read event" (.plain "yaml: parse error")).call_then
      (zero_add _).symm ?_
    rintro e _ ⟨rfl, told⟩
    refine wrapped e (Nat.zero_le _) told ?_
    rcases ended with refused | rfl
    · exact .inl refused
    · exact .inr rfl
  · rintro b ev rest rfl
    have shorter : rest.length ≤ (ev :: rest).length := Nat.le_succ _
    by_cases isExpected : ev = expected
    · simp only [if_pos isExpected]
      rw [pure_bind]
      refine eventDelete_then rfl ?_
      have byValue : Overlay.expectThen expected msg S (ev :: rest) nextByValue =
          nextByValue rest := by
        rw [Overlay.expectThen, Overlay.expectEventType, if_pos isExpected]
      have read := goes rest (Nat.lt_succ_self _) byValue
      rw [byValue]
      exact read.mono fun r left reads => reads.after shorter
    · simp only [if_neg isExpected]
      rw [bind_assoc]
      refine eventDelete_then rfl ?_
      have given := wrapped (.plain "yaml: unexpected event type") shorter (.inr rfl) (.inr (by
        rw [Overlay.expectThen, Overlay.expectEventType, if_neg isExpected]
        rfl))
      rw [blocks_plain, zero_add] at given
      exact given

/-- A key that could not be copied is an error. -/
theorem withKey_reads {noKey : String} {body : Str → σ → List YamlEvent → Alloc (Reading σ)}
    {key : KeyReader τ} {bound : Nat} (keeps : ∀ s, kept s = blocks s)
    (each : ∀ (k : Str) (s : σ) (S : τ) (evs : List YamlEvent), evs.length < bound → good s S →
      fits (key.read k.chars S evs).state → (Refuses grants ∨ rep s S) →
        Does grants ({k.block} + blocks s) (body k s evs)
          (Reads grants kept good rep evs (key.read k.chars S evs))) :
    KeyReads grants kept good rep fits (withKey noKey body) key bound := by
  intro k chars s S evs short isGood fit noCopy isKey same
  cases k with
  | none =>
      rw [blocks_none, zero_add, ← keeps]
      exact .pure (.of_fail isGood (le_refl _) (.inl (noCopy rfl)))
  | some k =>
      obtain rfl := isKey k rfl
      exact each k s S evs short isGood fit same

end Steps

/-! ## Arrays -/

namespace Arr

variable {α : Type} [Holder α]

omit [Holder α] in
/-- An array without a block has no items. -/
def Placed (a : Arr α) : Prop := a.block = none → a.items = []

/-- An item is written below the slots of a block that is held. -/
theorem write_then {β : Type} {a : Arr α} {item : α} {f : Arr α → Alloc β}
    {post : β → Multiset Block → Prop} {b : Block} (is : a.block = some b)
    (room : a.items.length < a.slots)
    (rest : Does grants (blocks a + blocks item + more)
      (f { a with items := a.items ++ [item] }) post) :
    Does grants (blocks a + blocks item + more) (a.write item >>= f) post := by
  have isHeld : b ∈ blocks a + blocks item + more := by
    have here : b ∈ blocks a := by
      show b ∈ blocks a.block + blocks a.items
      rw [is]
      exact Multiset.mem_add.mpr (.inl (Multiset.mem_singleton_self b))
    exact Multiset.mem_add.mpr (.inl (Multiset.mem_add.mpr (.inl here)))
  rw [write, bind_assoc]
  refine Does.deref_then is isHeld ?_
  rw [if_pos room, pure_bind]
  exact rest

/-- What an array holds with another item. -/
theorem blocks_append_item (a : Arr α) (item : α) :
    blocks { a with items := a.items ++ [item] } = blocks a + blocks item := by
  show blocks a.block + blocks (a.items ++ [item]) = blocks a.block + blocks a.items + blocks item
  rw [blocks_append, blocks_cons, blocks_nil, add_zero, add_assoc]

end Arr

namespace Rows

variable {α : Type}

/-- An array without a block has no items, and its writer knows of no slots. -/
def Ready (rows : Rows α) : Prop :=
  rows.array.block = none → rows.array.items = [] ∧ rows.capacity = 0

theorem Ready.placed {rows : Rows α} (ready : rows.Ready) : rows.array.Placed :=
  fun missing => (ready missing).1

/-- There is a slot for another item, or the array is grown first. -/
def Room (rows : Rows α) : Prop :=
  rows.array.items.length ≠ rows.capacity → rows.array.items.length < rows.array.slots

/-- The remembered number of slots lies between the number of items and that of slots. -/
structure Steady (rows : Rows α) : Prop where
  ready : rows.Ready
  counted : rows.array.items.length ≤ rows.capacity
  allocated : rows.capacity ≤ rows.array.slots

theorem Steady.room {rows : Rows α} (steady : rows.Steady) : rows.Room := by
  intro notFull
  have counted := steady.counted
  have allocated := steady.allocated
  omega

theorem steady_empty : (⟨.empty, 0⟩ : Rows α).Steady := ⟨fun _ => ⟨rfl, rfl⟩, le_refl 0, le_refl 0⟩

/-- What appending an item leaves: the item is in the array, which has a block now. -/
structure Appended (initial : Nat) (rows : Rows α) (item : α) (rows' : Rows α) : Prop where
  items : rows'.array.items = rows.array.items ++ [item]
  placed : rows'.array.block ≠ none
  capacity : rows'.capacity =
    if rows.array.items.length = rows.capacity then GrowArray.newCapacity initial rows.capacity
    else rows.capacity
  slots : rows'.array.slots =
    if rows.array.items.length = rows.capacity then GrowArray.newCapacity initial rows.capacity
    else rows.array.slots

/-- The item that was appended is replaced. -/
theorem Appended.set_last {initial : Nat} {rows rows' : Rows α} {item : α}
    (appended : Appended initial rows item rows') (last : α) :
    rows'.array.items.set rows.array.items.length last = rows.array.items ++ [last] := by
  rw [appended.items, List.set_append_right _ _ (le_refl _), Nat.sub_self]
  rfl

/-- An array to which an item was appended is ready. -/
theorem Appended.ready {initial : Nat} {rows rows' : Rows α} {item : α}
    (appended : Appended initial rows item rows') : rows'.Ready :=
  fun missing => absurd missing appended.placed

/-- A steady array is steady after an item was appended. -/
theorem Appended.steady {initial : Nat} (pos : 0 < initial) {rows rows' : Rows α} {item : α}
    (appended : Appended initial rows item rows') (steady : rows.Steady) : rows'.Steady := by
  have grows := GrowArray.lt_newCapacity pos rows.capacity
  have counted := steady.counted
  have allocated := steady.allocated
  refine ⟨appended.ready, ?_, ?_⟩
  · rw [appended.items, appended.capacity, List.length_append, List.length_singleton]
    split
    · omega
    · omega
  · rw [appended.capacity, appended.slots]
    split
    · exact le_refl _
    · exact allocated

theorem append_holds [Holder α] {initial : Nat} (pos : 0 < initial) {rows : Rows α}
    (ready : rows.Ready) (room : rows.Room) (item : α) :
    Does grants (blocks rows + blocks item) (rows.append initial item) fun r held' =>
      match r with
      | none => held' = blocks rows + blocks item ∧ Refuses grants
      | some rows' => held' = blocks rows' ∧ Appended initial rows item rows' := by
  obtain ⟨⟨block, items, slots⟩, capacity⟩ := rows
  rw [append, grow]
  by_cases full : items.length = capacity
  · have grows := GrowArray.lt_newCapacity pos capacity
    rw [if_pos full, bind_assoc]
    refine Does.realloc_then (show _ = blocks block + (blocks items + blocks item) from
      add_assoc _ _ _) fun q refused => ?_
    cases q with
    | none => exact .pure ⟨(add_assoc _ _ _).symm, refused rfl⟩
    | some b =>
        rw [pure_bind]
        have grown : blocks ((some b).orElse fun _ => block) + (blocks items + blocks item) =
            blocks (⟨some b, items, GrowArray.newCapacity initial capacity⟩ : Arr α) +
              blocks item + 0 := by
          rw [add_zero, ← add_assoc]
          rfl
        rw [grown]
        refine Arr.write_then rfl
          (show items.length < GrowArray.newCapacity initial capacity by omega) ?_
        rw [add_zero, ← Arr.blocks_append_item]
        exact .pure ⟨rfl, rfl, Option.some_ne_none b, (if_pos full).symm, (if_pos full).symm⟩
  · rw [if_neg full, pure_bind]
    cases block with
    | none =>
        obtain ⟨none, zero⟩ := ready rfl
        exact absurd (by rw [show items = [] from none, show capacity = 0 from zero]; rfl) full
    | some b =>
        have held : blocks (⟨⟨some b, items, slots⟩, capacity⟩ : Rows α) + blocks item =
            blocks (⟨some b, items, slots⟩ : Arr α) + blocks item + 0 := (add_zero _).symm
        rw [held]
        refine Arr.write_then rfl (room full) ?_
        rw [add_zero, ← Arr.blocks_append_item]
        exact .pure ⟨rfl, rfl, Option.some_ne_none b, (if_neg full).symm, (if_neg full).symm⟩

/-- The array of the loader by value, and the capacity it remembers for it. -/
def Represents {β : Type} (erase : α → β) (rows : Rows α) (byValue : GrowArray β × Nat) : Prop :=
  rows.array.items.map erase = byValue.1.items ∧ rows.capacity = byValue.2

/-- The array has as many items and slots as that of the loader by value, and the same capacity is
remembered. -/
structure Alike {β : Type} (rows : Rows α) (A : GrowArray β) (capacity : Nat) : Prop where
  count : rows.array.items.length = A.count
  slots : rows.array.slots = A.slots
  capacity : rows.capacity = capacity

/-- There is room where the loader by value writes below its slots. -/
theorem Alike.room {β : Type} {rows : Rows α} {A : GrowArray β} {capacity initial : Nat} {x : β}
    (alike : rows.Alike A capacity)
    (bounds : ∀ step ∈ (A.push initial capacity x).steps, step.InBounds) : rows.Room := by
  intro notFull
  rw [alike.count, alike.capacity] at notFull
  rw [alike.count, alike.slots]
  rw [GrowArray.push, if_neg notFull] at bounds
  exact bounds _ (List.mem_singleton_self _)

theorem Appended.capacity_push {β : Type} {initial : Nat} {rows rows' : Rows α} {item : α}
    {A : GrowArray β} {x : β} (appended : Appended initial rows item rows')
    (count : A.count = rows.array.items.length) :
    rows'.capacity = (A.push initial rows.capacity x).capacity := by
  rw [appended.capacity, GrowArray.push, count]
  split
  · rfl
  · rfl

theorem Appended.alike {β : Type} {initial : Nat} {rows rows' : Rows α} {item : α}
    {A : GrowArray β} {capacity : Nat} {x : β} (appended : Appended initial rows item rows')
    (alike : rows.Alike A capacity) : rows'.Alike (A.push initial capacity x).array
      (A.push initial capacity x).capacity := by
  refine ⟨?_, ?_, ?_⟩
  · rw [appended.items, List.length_append, List.length_singleton, GrowArray.push_count,
      alike.count]
  · rw [appended.slots, alike.count, alike.capacity, alike.slots, GrowArray.push]
    split
    · rfl
    · rfl
  · rw [← alike.capacity]
    exact appended.capacity_push alike.count.symm

theorem Appended.represents {β : Type} {erase : α → β} {initial : Nat} {rows rows' : Rows α}
    {item : α} {A : GrowArray β} {capacity : Nat} (appended : Appended initial rows item rows')
    (same : rows.Represents erase (A, capacity)) :
    rows'.Represents erase ((A.push initial capacity (erase item)).array,
      (A.push initial capacity (erase item)).capacity) := by
  obtain ⟨items, rfl⟩ := same
  have items : rows.array.items.map erase = A.items := items
  refine ⟨?_, appended.capacity_push ?_⟩
  · rw [appended.items, List.map_append, items, GrowArray.push_items]
    rfl
  · rw [GrowArray.count, ← items, List.length_map]

end Rows

/-! ## Rows -/

section Rows

variable {σ τ : Type} [Holder σ] {good rep : σ → τ → Prop} {evs : List YamlEvent}

/-- What is left of part of the state is what is left of the state. -/
theorem Reads.map {ρ υ : Type} [Holder ρ] {goodPart repPart : ρ → υ → Prop}
    {R : Overlay.Reading υ} {R' : Overlay.Reading τ} {r : Reading ρ}
    (reads : Reads grants blocks goodPart repPart evs R r held) (put : ρ → σ)
    (holds : ∀ x X, goodPart x X → blocks (put x) = blocks x + more)
    (usable : ∀ x X, goodPart x X → ∃ S, good (put x) S)
    (isGood : ∀ x, goodPart x R.state → R.result = .ok () → good (put x) R'.state)
    (result : R'.result = R.result) (rest : R'.rest = R.rest)
    (same : Refuses grants ∨ ∀ x, repPart x R.state → rep (put x) R'.state) :
    Reads grants blocks good rep evs R' ⟨r.result, put r.state, r.rest⟩ (held + more) := by
  obtain ⟨⟨lost, rfl, isLost⟩, ⟨X, part⟩, follows, shorter, agrees⟩ := reads
  refine ⟨⟨lost, ?_, isLost⟩, usable _ X part, ?_, shorter, ?_⟩
  · obtain ⟨result, state, rest⟩ := r
    cases result with
    | error e =>
        show blocks e + blocks state + lost + more = blocks e + blocks (put state) + lost
        rw [holds state X part]
        ac_rfl
    | ok u =>
        show blocks state + lost + more = blocks (put state) + lost
        rw [holds state X part]
        ac_rfl
  · intro ended
    obtain ⟨read, state, remaining⟩ := follows ended
    exact ⟨result.trans read, isGood _ state read, remaining.trans rest.symm⟩
  · rcases agrees with refused | agrees
    · exact .inl refused
    · refine same.imp_right fun represents => ?_
      exact ⟨by rw [result, agrees.result], represents _ agrees.state, by rw [rest, agrees.rest]⟩

variable {κ κ' : Type} [Holder κ] {fields : Fields κ} {assign : κ' → CStr → CStr → κ'}

/-- What is made by value of an entry that was read. -/
def entryByValue {υ : Type} (S : υ) (append : κ' → υ) (inner : Overlay.Reading κ') :
    Overlay.Reading υ :=
  match inner.result with
  | .error e => ⟨.error e, S, inner.rest⟩
  | .ok _ => ⟨.ok (), append inner.state, inner.rest⟩

theorem entryByValue_ok {υ : Type} {S : υ} {append : κ' → υ} {inner : Overlay.Reading κ'}
    (read : inner.result = .ok ()) :
    entryByValue S append inner = ⟨.ok (), append inner.state, inner.rest⟩ := by
  rw [entryByValue, read]

/-- An array with its capacity, after an item was appended. -/
def pushed (initial : Nat) (A : GrowArray κ' × Nat) (item : κ') : GrowArray κ' × Nat :=
  ((A.1.push initial A.2 item).array, (A.1.push initial A.2 item).capacity)

/-- What a routine leaves that reads into an array whose slots are known. -/
abbrev RowsRead (grants : Nat → Bool) (erase : κ → κ') (evs : List YamlEvent)
    (R : Overlay.Reading (GrowArray κ' × Nat)) : Reading (Rows κ) → Multiset Block → Prop :=
  Reads grants blocks (fun rows _ => rows.Steady) (Rows.Represents erase) evs R

/-- **An entry is read and appended** as by value. What is lost is what dropping it leaves. -/
theorem readRow_reads {erase : κ → κ'} {initial : Nat} {noRoom : String} {drop : κ → Alloc Unit}
    (pos : 0 < initial)
    (mirrors : fields.Mirrors (fun _ => 0) (fun _ _ => True) (fun k K => erase k = K) assign)
    (drops : ∀ k, Does grants (blocks k) (drop k) fun _ lost => lost.card ≤ 1) {steps : Nat}
    {rows : Rows κ} {A : GrowArray κ' × Nat} {k : κ} (enough : evs.length < steps)
    (steady : rows.Steady) (same : Refuses grants ∨ rows.Represents erase A) :
    Does grants (blocks k + blocks rows) (fields.readRow initial noRoom drop steps rows k evs)
      (RowsRead grants erase evs (entryByValue A (pushed initial A)
        (readLoop none fields.badKey (fieldReader fields.badValue assign) (erase k) evs))) := by
  refine (mirrors.readAll enough trivial (.inr rfl)).call_then rfl ?_
  intro inner left reads
  obtain ⟨result, row, rest⟩ := inner
  obtain ⟨lost, rfl, isLost⟩ := reads.balance
  cases result with
  | error e =>
      refine .pure ⟨⟨lost, ?_, isLost⟩, ⟨A, steady⟩, nofun, reads.shorter, ?_⟩
      · show blocks e + 0 + lost + blocks rows = blocks e + blocks rows + lost
        rw [add_zero, add_right_comm]
      · rcases reads.agrees with refused | agrees
        · exact .inl refused
        · refine same.imp_right fun represents => ?_
          have failed := agrees.result
          rw [entryByValue, ← failed]
          exact ⟨rfl, represents, agrees.rest⟩
  | ok u =>
      obtain rfl := isLost.of_ok
      obtain ⟨read, -, remaining⟩ := reads.follows rfl
      refine (Rows.append_holds pos steady.ready steady.room row).call_then
        (show _ = blocks rows + blocks row + 0 by rw [add_zero, add_zero, add_comm]; rfl) ?_
      intro appended left holds
      rw [add_zero]
      cases appended with
      | none =>
          obtain ⟨rfl, refused⟩ := holds
          refine (drops row).call_then (add_comm _ _) ?_
          rintro ⟨⟩ lost few
          refine .pure ⟨⟨lost, ?_, few, fun _ => ⟨refused, _, rfl⟩⟩, ⟨A, steady⟩, nofun,
            reads.shorter, .inl refused⟩
          show lost + blocks rows = blocks (Failure.plain noRoom) + blocks rows + lost
          rw [blocks_plain, zero_add, add_comm]
      | some rows' =>
          obtain ⟨rfl, appended⟩ := holds
          rw [entryByValue_ok read]
          refine .pure (.of_ok ⟨rfl, appended.steady pos steady, remaining⟩ reads.shorter ?_)
          rcases reads.agrees with refused | agrees
          · exact .inl refused
          · refine same.imp_right fun represents => ?_
            have state : erase row = _ := agrees.state
            rw [← state]
            exact appended.represents represents

/-- **A routine that reads an entry into an array of its state** does what the one by value
does. -/
theorem readEntry_reads {erase : κ → κ'} {initial : Nat} {noRoom : String} {drop : κ → Alloc Unit}
    (pos : 0 < initial)
    (mirrors : fields.Mirrors (fun _ => 0) (fun _ _ => True) (fun k K => erase k = K) assign)
    (drops : ∀ k, Does grants (blocks k) (drop k) fun _ lost => lost.card ≤ 1) {steps : Nat}
    {rows : Rows κ} {A : GrowArray κ' × Nat} {k : κ} (enough : evs.length < steps)
    (steady : rows.Steady) (same : Refuses grants ∨ rows.Represents erase A) (put : Rows κ → σ)
    (holds : ∀ x, blocks (put x) = blocks x + more) {S : τ} {append : κ' → τ}
    (isGood : ∀ x, x.Steady → good (put x) S ∧ ∀ K, good (put x) (append K))
    (stays : Refuses grants ∨ ∀ x, x.Represents erase A → rep (put x) S)
    (grows : Refuses grants ∨ ∀ x K, x.Represents erase (pushed initial A K) →
      rep (put x) (append K)) :
    Does grants (blocks k + blocks (put rows)) (do
      let r ← fields.readRow initial noRoom drop steps rows k evs
      pure ⟨r.result, put r.state, r.rest⟩)
      (Reads grants blocks good rep evs (entryByValue S append
        (readLoop none fields.badKey (fieldReader fields.badValue assign) (erase k) evs))) := by
  refine (readRow_reads pos mirrors drops enough steady same).call_then
    (by rw [holds, add_assoc]) ?_
  intro r left reads
  refine .pure (reads.map put (fun x _ _ => holds x) (fun x _ steady => ⟨S, (isGood x steady).1⟩)
    (fun x steady _ => ?_) ?_ ?_ ?_)
  · unfold entryByValue
    split
    · exact (isGood x steady).1
    · exact (isGood x steady).2 _
  · unfold entryByValue
    split
    · rfl
    · rfl
  · unfold entryByValue
    split
    · rfl
    · rfl
  · rcases stays with refused | stays
    · exact .inl refused
    refine grows.imp_right fun grows x represents => ?_
    unfold entryByValue at represents ⊢
    split
    · next failed =>
        simp only [failed] at represents
        exact stays x represents
    · next read =>
        simp only [read] at represents
        exact grows x _ represents

end Rows

end Ykern.Overlay.Memory
