import Ykern.Overlay.LoaderRefinement

/-!
# What the loader accepts

The overlay format as a grammar of event streams: a mapping of sections, of which three
are mappings of their own and all others are scalars (`IsDocument`).

A reader of values recognises a language when it is complete exactly on the streams that
start with a word of it, and then leaves what follows the word. A reader of mappings
recognises the mappings over what its value reader recognises
(`readMapping_recognises`), by one induction that serves all levels of nesting. The
loader follows the reading of the document, so it accepts exactly the streams that start
with a document (`readTop_ok_iff`).
-/

set_option autoImplicit false

namespace Ykern.Overlay

variable {α β : Type}

/-! ## The grammar -/

/-- The events of a mapping after its start: keys that are scalars, each with a value,
and the end. -/
inductive MappingBody (value : CStr → List YamlEvent → Prop) : List YamlEvent → Prop where
  | last : MappingBody value [.mappingEnd]
  | entry {k : Bytes} {v others : List YamlEvent} :
      value (takeScalar k) v → MappingBody value others →
        MappingBody value (.scalar k :: (v ++ others))

/-- A scalar, under any key. -/
def IsScalar (_key : CStr) (evs : List YamlEvent) : Prop := ∃ v, evs = [.scalar v]

/-- A mapping of such values, under any key. -/
def IsMapping (value : CStr → List YamlEvent → Prop) (_key : CStr) (evs : List YamlEvent) : Prop :=
  ∃ body, evs = .mappingStart :: body ∧ MappingBody value body

/-- The value of an attribute set: under keys that are numbers, mappings from scalars to
scalars. -/
def IsAttributeSet : CStr → List YamlEvent → Prop :=
  IsMapping fun key evs => (parseUint32 key).isSome = true ∧ IsMapping IsScalar key evs

/-- The value of a key of the top-level mapping. -/
def IsSection (key : CStr) (evs : List YamlEvent) : Prop :=
  if key = lit "operations" ∨ key = lit "mcast_groups" then
    IsMapping (IsMapping IsScalar) key evs
  else if key = lit "attribute_sets" then IsMapping IsAttributeSet key evs
  else IsScalar key evs

/-- The events of a document, from the start of the stream to the end of the top-level
mapping. -/
def IsDocument (evs : List YamlEvent) : Prop :=
  ∃ body, evs = .streamStart :: .documentStart :: .mappingStart :: body ∧
    MappingBody IsSection body

/-! ## Readers recognise the grammar -/

/-- A reader is complete on the streams that start with a word, and leaves the rest. -/
def ValueReader.Recognises (value : ValueReader α) (word : CStr → List YamlEvent → Prop) : Prop :=
  ∀ key evs rest, (value.read key evs).2 = some rest ↔ ∃ v, evs = v ++ rest ∧ word key v

/-- **Reading a mapping recognises the mappings over what the value reader recognises.** -/
theorem readMapping_recognises {value : ValueReader α} {word : CStr → List YamlEvent → Prop}
    (recognises : value.Recognises word) (evs rest : List YamlEvent) :
    (readMapping value evs).2 = some rest ↔ ∃ body, evs = body ++ rest ∧ MappingBody word body := by
  induction evs using readMapping.induct value generalizing rest with
  | case1 rest' =>
      rw [readMapping]
      constructor
      · rintro same
        obtain rfl := Option.some.inj same
        exact ⟨[.mappingEnd], rfl, .last⟩
      · rintro ⟨body, same, isBody⟩
        cases isBody with
        | last => exact congrArg some (List.cons.inj same).2
        | entry _ _ => cases (List.cons.inj same).1
  | case2 k rest' first incomplete =>
      have incomplete : (value.read (takeScalar k) rest').2 = none := incomplete
      rw [readMapping_incomplete incomplete]
      constructor
      · rintro ⟨⟩
      · rintro ⟨body, same, isBody⟩
        cases isBody with
        | last => cases (List.cons.inj same).1
        | @entry _ v after isWord _ =>
            obtain ⟨⟨rfl⟩, tail⟩ := List.cons.inj same
            have complete := (recognises (takeScalar k) rest' (after ++ rest)).mpr
              ⟨v, tail.trans (List.append_assoc _ _ _), isWord⟩
            rw [incomplete] at complete
            cases complete
  | case3 k rest' first rest'' complete ih =>
      have complete : (value.read (takeScalar k) rest').2 = some rest'' := complete
      rw [readMapping_complete complete, ih]
      constructor
      · rintro ⟨body, rfl, isBody⟩
        obtain ⟨v, rfl, isWord⟩ := (recognises (takeScalar k) _ _).mp complete
        exact ⟨.scalar k :: (v ++ body), by simp, .entry isWord isBody⟩
      · rintro ⟨body, same, isBody⟩
        cases isBody with
        | last => cases (List.cons.inj same).1
        | @entry _ v after isWord isBody =>
            obtain ⟨⟨rfl⟩, tail⟩ := List.cons.inj same
            have left := (recognises (takeScalar k) rest' (after ++ rest)).mpr
              ⟨v, tail.trans (List.append_assoc _ _ _), isWord⟩
            exact ⟨after, Option.some.inj (complete.symm.trans left), isBody⟩
  | case4 evs notEnd notScalar =>
      rw [readMapping.eq_3 _ _ notEnd notScalar]
      constructor
      · rintro ⟨⟩
      · rintro ⟨body, same, isBody⟩
        cases isBody with
        | last => exact absurd same (notEnd _)
        | entry _ _ => exact absurd same (notScalar _ _)

/-- Reading a value that is a mapping recognises those with accepted keys. -/
theorem mapping_recognises {value : ValueReader α} {word : CStr → List YamlEvent → Prop}
    (recognises : value.Recognises word) (accepts : CStr → Bool)
    (complete incomplete : CStr → List α → List β) :
    (value.mapping accepts complete incomplete).Recognises fun key evs =>
      accepts key = true ∧ IsMapping word key evs := by
  intro key evs rest
  by_cases starts : ∃ inner, evs = .mappingStart :: inner
  · obtain ⟨inner, rfl⟩ := starts
    cases accepted : accepts key with
    | false => simp [ValueReader.mapping, accepted]
    | true =>
        have read : ((value.mapping accepts complete incomplete).read key
            (.mappingStart :: inner)).2 = (readMapping value inner).2 := by
          simp only [ValueReader.mapping, accepted, if_true]
          split
          · next ended => rw [ended]
          · next ended => rw [ended]
        rw [read, readMapping_recognises recognises]
        constructor
        · rintro ⟨body, rfl, isBody⟩
          exact ⟨.mappingStart :: body, rfl, accepted, body, rfl, isBody⟩
        · rintro ⟨v, same, _, body, rfl, isBody⟩
          exact ⟨body, (List.cons.inj same).2, isBody⟩
  · have unread : ((value.mapping accepts complete incomplete).read key evs).2 = none := by
      simp only [ValueReader.mapping]
      split
      · next inner => exact absurd ⟨inner, rfl⟩ starts
      · rfl
    rw [unread]
    constructor
    · rintro ⟨⟩
    · rintro ⟨v, rfl, _, body, rfl, _⟩
      exact absurd ⟨body ++ rest, rfl⟩ starts

theorem scalarValue_recognises : scalarValue.Recognises IsScalar := by
  intro key evs rest
  match evs with
  | [] => simp [scalarValue, IsScalar]
  | .scalar v :: evs =>
      constructor
      · intro same
        obtain rfl := Option.some.inj same
        exact ⟨[.scalar v], rfl, v, rfl⟩
      · rintro ⟨_, same, v', rfl⟩
        exact congrArg some (List.cons.inj same).2
  | .noEvent :: _ | .streamStart :: _ | .streamEnd :: _ | .documentStart :: _ | .documentEnd :: _
  | .alias :: _ | .sequenceStart :: _ | .sequenceEnd :: _ | .mappingStart :: _ | .mappingEnd :: _ =>
      constructor
      · rintro ⟨⟩
      · rintro ⟨_, same, v', rfl⟩
        cases (List.cons.inj same).1

theorem entryValue_recognises (accepts : CStr → Bool) :
    (entryValue accepts).Recognises fun key evs =>
      accepts key = true ∧ IsMapping IsScalar key evs :=
  mapping_recognises scalarValue_recognises accepts _ _

theorem setValue_recognises : setValue.Recognises IsAttributeSet := by
  intro key evs rest
  apply (mapping_recognises (entryValue_recognises isAttrKey) (fun _ => true) _ _ key evs rest).trans
  simp only [isAttrKey, true_and]
  rfl

theorem sectionValue_recognises : sectionValue.Recognises IsSection := by
  have entries {γ : Type} (wrapped : CStr → List Entry → List γ) : ((entryValue fun _ => true).mapping
      (fun _ => true) wrapped wrapped).Recognises (IsMapping (IsMapping IsScalar)) := by
    intro key evs rest
    apply (mapping_recognises (entryValue_recognises fun _ => true) _ _ _ key evs rest).trans
    simp only [true_and]
  have sets : (setValue.mapping (fun _ => true) (fun _ sets => [Section.attributeSets sets])
      fun _ sets => [Section.attributeSets sets]).Recognises (IsMapping IsAttributeSet) := by
    intro key evs rest
    apply (mapping_recognises setValue_recognises _ _ _ key evs rest).trans
    simp only [true_and]
  intro key evs rest
  by_cases operations : key = lit "operations"
  · have nested : key = lit "operations" ∨ key = lit "mcast_groups" := Or.inl operations
    simp only [sectionValue, IsSection, if_pos operations, if_pos nested]
    exact entries _ key evs rest
  by_cases groups : key = lit "mcast_groups"
  · have nested : key = lit "operations" ∨ key = lit "mcast_groups" := Or.inr groups
    simp only [sectionValue, IsSection, if_neg operations, if_pos groups, if_pos nested]
    exact entries _ key evs rest
  have flat : ¬(key = lit "operations" ∨ key = lit "mcast_groups") :=
    not_or.mpr ⟨operations, groups⟩
  by_cases attributeSets : key = lit "attribute_sets"
  · simp only [sectionValue, IsSection, if_neg operations, if_neg groups, if_neg flat,
      if_pos attributeSets]
    exact sets key evs rest
  · simp only [sectionValue, IsSection, if_neg operations, if_neg groups, if_neg flat,
      if_neg attributeSets]
    exact scalarValue_recognises key evs rest

/-- Reading a document is complete exactly on the streams that start with one. -/
theorem readDocument_recognises (evs rest : List YamlEvent) :
    (readDocument evs).2 = some rest ↔ ∃ document, evs = document ++ rest ∧ IsDocument document := by
  unfold readDocument
  split
  · next inner =>
      rw [readMapping_recognises sectionValue_recognises]
      constructor
      · rintro ⟨body, rfl, isBody⟩
        exact ⟨_, rfl, body, rfl, isBody⟩
      · rintro ⟨document, same, body, rfl, isBody⟩
        exact ⟨body, (List.cons.inj (List.cons.inj (List.cons.inj same).2).2).2, isBody⟩
  · next notDocument =>
      constructor
      · rintro ⟨⟩
      · rintro ⟨document, rfl, body, rfl, _⟩
        exact absurd rfl (notDocument (body ++ rest))

/-! ## Sources that run dry -/

/-- No word of the grammar has an event in it that is none. -/
theorem MappingBody.noEvent_notMem {word : CStr → List YamlEvent → Prop}
    (regular : ∀ key v, word key v → .noEvent ∉ v) {body : List YamlEvent}
    (isBody : MappingBody word body) : .noEvent ∉ body := by
  induction isBody with
  | last => simp
  | entry isWord _ ih => simp [regular _ _ isWord, ih]

theorem IsScalar.noEvent_notMem (key : CStr) (evs : List YamlEvent) (isScalar : IsScalar key evs) :
    .noEvent ∉ evs := by
  obtain ⟨v, rfl⟩ := isScalar
  simp

theorem IsMapping.noEvent_notMem {word : CStr → List YamlEvent → Prop}
    (regular : ∀ key v, word key v → .noEvent ∉ v) (key : CStr) (evs : List YamlEvent)
    (isMapping : IsMapping word key evs) : .noEvent ∉ evs := by
  obtain ⟨body, rfl, isBody⟩ := isMapping
  simp [isBody.noEvent_notMem regular]

theorem IsDocument.noEvent_notMem {document : List YamlEvent} (isDocument : IsDocument document) :
    .noEvent ∉ document := by
  have entries := IsMapping.noEvent_notMem IsScalar.noEvent_notMem
  have attributes := IsMapping.noEvent_notMem fun key v
    (word : (parseUint32 key).isSome = true ∧ IsMapping IsScalar key v) => entries key v word.2
  obtain ⟨body, rfl, isBody⟩ := isDocument
  have regular : ∀ key v, IsSection key v → .noEvent ∉ v := by
    intro key v isSection
    unfold IsSection at isSection
    split at isSection
    · exact IsMapping.noEvent_notMem entries key v isSection
    split at isSection
    · exact IsMapping.noEvent_notMem attributes key v isSection
    · exact isSection.noEvent_notMem
  simp [isBody.noEvent_notMem regular]

/-- A reading of a stream with `n` events behind it that are none: it leaves all of these,
or has failed at the first of them or at the end. -/
def Reading.Frugal {σ : Type} (n : Nat) (r : Reading σ) : Prop :=
  (∃ left, r.rest = left ++ List.replicate n .noEvent) ∨
    (∃ e, r.result = .error e) ∧ r.rest = List.replicate (n - 1) .noEvent

namespace Reading.Frugal

variable {σ τ : Type} {n : Nat}

theorem wrap {r : Reading σ} (frugal : r.Frugal n) (text : String) : (r.wrap text).Frugal n := by
  rcases frugal with ⟨left, same⟩ | ⟨⟨e, failed⟩, same⟩
  · exact Or.inl ⟨left, by rw [wrap_rest, same]⟩
  · refine Or.inr ⟨⟨text :: e, ?_⟩, by rw [wrap_rest, same]⟩
    simp only [Reading.wrap, failed]

/-- What follows from the result alone carries over. -/
theorem of_result {r : Reading σ} {r' : Reading τ} (frugal : r.Frugal n) (rest : r'.rest = r.rest)
    (failed : ∀ e, r.result = .error e → ∃ e', r'.result = .error e') : r'.Frugal n := by
  rcases frugal with ⟨left, same⟩ | ⟨⟨e, error⟩, same⟩
  · exact Or.inl ⟨left, rest.trans same⟩
  · exact Or.inr ⟨failed e error, rest.trans same⟩

theorem room {r : Reading σ} (frugal : r.Frugal n) : n ≤ r.rest.length + 1 := by
  rcases frugal with ⟨left, same⟩ | ⟨_, same⟩ <;>
    rw [same] <;> simp only [List.length_append, List.length_replicate] <;> omega

end Reading.Frugal

theorem expectThen_frugal {σ : Type} {expected : YamlEvent} (event : expected ≠ .noEvent)
    {text : String} {s : σ} {next : List YamlEvent → Reading σ}
    (frugal : ∀ evs n, (next (evs ++ List.replicate n .noEvent)).Frugal n)
    (evs : List YamlEvent) (n : Nat) :
    (expectThen expected text s (evs ++ List.replicate n .noEvent) next).Frugal n := by
  unfold expectThen expectEventType
  cases evs with
  | nil =>
      cases n with
      | zero => exact Or.inr ⟨⟨_, rfl⟩, rfl⟩
      | succ n => simp [List.replicate_succ, event.symm, Reading.Frugal]
  | cons ev evs =>
      by_cases same : ev = expected
      · simp only [List.cons_append, if_pos same]
        exact frugal evs n
      · simp only [List.cons_append, if_neg same]
        exact Or.inl ⟨evs, rfl⟩

/-- A reader of keys that is frugal with every value. -/
def KeyReader.Frugal {σ : Type} (key : KeyReader σ) : Prop :=
  ∀ k s evs n, (key.read k s (evs ++ List.replicate n .noEvent)).Frugal n

theorem readLoop_frugal {σ : Type} (next : Option String) (badKey : String) {key : KeyReader σ}
    (frugal : key.Frugal) (s : σ) (evs : List YamlEvent) (n : Nat) :
    (readLoop next badKey key s (evs ++ List.replicate n .noEvent)).Frugal n := by
  generalize stream : evs ++ List.replicate n .noEvent = whole
  induction s, whole using readLoop.induct key generalizing evs with
  | case1 s =>
      obtain ⟨-, none⟩ := List.append_eq_nil_iff.mp stream
      rw [readLoop]
      obtain rfl : n = 0 := by simpa using none
      exact Or.inr ⟨⟨_, rfl⟩, rfl⟩
  | case2 s rest =>
      rw [readLoop]
      cases evs with
      | nil => cases n <;> cases stream
      | cons ev evs => exact Or.inl ⟨evs, (List.cons.inj stream).2.symm⟩
  | case3 s k rest entry e failed =>
      have failed : (key.read (takeScalar k) s rest).result = .error e := failed
      rw [readLoop]
      simp only [failed]
      cases evs with
      | nil => cases n <;> cases stream
      | cons ev evs =>
          obtain ⟨-, rfl⟩ := List.cons.inj stream
          exact frugal (takeScalar k) s evs n
  | case4 s k rest entry u read ih =>
      have read : (key.read (takeScalar k) s rest).result = .ok u := read
      rw [readLoop]
      simp only [read]
      cases evs with
      | nil => cases n <;> cases stream
      | cons ev evs =>
          obtain ⟨-, rfl⟩ := List.cons.inj stream
          -- An entry that was read ends before the events that are none.
          rcases frugal (takeScalar k) s evs n with ⟨left, same⟩ | ⟨⟨e, failed⟩, _⟩
          · exact ih left same.symm
          · cases read.symm.trans failed
  | case5 s ev rest notEnd notScalar =>
      rw [readLoop.eq_4 _ _ _ _ _ _ notEnd notScalar]
      cases evs with
      | nil =>
          cases n with
          | zero => cases stream
          | succ n => exact Or.inr ⟨⟨_, rfl⟩, (List.cons.inj stream).2.symm⟩
      | cons ev evs => exact Or.inl ⟨evs, (List.cons.inj stream).2.symm⟩

theorem fieldReader_frugal {κ : Type} (badValue : String) (assign : κ → CStr → CStr → κ) :
    (fieldReader badValue assign).Frugal := by
  intro k s evs n
  cases evs with
  | nil =>
      apply Or.inr
      cases n with
      | zero => exact ⟨⟨_, rfl⟩, rfl⟩
      | succ n => exact ⟨⟨_, rfl⟩, rfl⟩
  | cons ev evs => cases ev <;> exact Or.inl ⟨evs, rfl⟩

theorem opReader_frugal : opReader.Frugal := by
  intro k l evs n
  refine expectThen_frugal (by decide) ?_ evs n
  intro evs n
  refine Reading.Frugal.wrap ?_ _
  have fields : (readOpFields (opKey k).1 (opKey k).2 (evs ++ List.replicate n .noEvent)).Frugal n :=
    readLoop_frugal _ _ (fieldReader_frugal _ _) _ evs n
  apply fields.of_result
  · unfold readOpInner; dsimp only; split <;> rfl
  · intro e failed
    refine ⟨e, ?_⟩
    unfold readOpInner
    simp only [failed]

theorem mcastReader_frugal : mcastReader.Frugal := by
  intro k l evs n
  refine expectThen_frugal (by decide) ?_ evs n
  intro evs n
  refine Reading.Frugal.wrap ?_ _
  have fields : (readMcastFields k (evs ++ List.replicate n .noEvent)).Frugal n :=
    readLoop_frugal _ _ (fieldReader_frugal _ _) _ evs n
  apply fields.of_result
  · unfold readMcastEntry; dsimp only; split <;> rfl
  · intro e failed
    refine ⟨e, ?_⟩
    unfold readMcastEntry
    simp only [failed]

theorem attrReader_frugal (set : Nat) : (attrReader set).Frugal := by
  intro k s evs n
  unfold attrReader
  dsimp only
  split
  · exact Or.inl ⟨evs, rfl⟩
  · next attrId _ =>
      refine expectThen_frugal (by decide) ?_ evs n
      intro evs n
      have fields : (readAttrFields attrId (evs ++ List.replicate n .noEvent)).Frugal n :=
        readLoop_frugal _ _ (fieldReader_frugal _ _) _ evs n
      apply fields.of_result
      · unfold readAttrInner; dsimp only; split <;> rfl
      · intro e failed
        refine ⟨e, ?_⟩
        unfold readAttrInner
        simp only [failed]

theorem setReader_frugal : setReader.Frugal := by
  intro k l evs n
  refine expectThen_frugal (by decide) ?_ evs n
  intro evs n
  refine Reading.Frugal.wrap ?_ _
  exact (readLoop_frugal _ _ (attrReader_frugal _) _ evs n).of_result rfl fun e failed =>
    ⟨e, failed⟩

theorem topReader_frugal : topReader.Frugal := by
  intro k l evs n
  unfold topReader
  dsimp only
  split
  · exact (expectThen_frugal (by decide) (readLoop_frugal _ _ opReader_frugal l) evs n).wrap _
  split
  · exact (expectThen_frugal (by decide) (readLoop_frugal _ _ mcastReader_frugal l) evs n).wrap _
  split
  · exact (expectThen_frugal (by decide) (readLoop_frugal _ _ setReader_frugal l) evs n).wrap _
  · exact fieldReader_frugal _ _ k l evs n

theorem readTop_frugal (l : OverlayLoader) (evs : List YamlEvent) (n : Nat) :
    (readTop l (evs ++ List.replicate n .noEvent)).Frugal n := by
  refine expectThen_frugal (by decide) ?_ evs n
  apply expectThen_frugal (by decide)
  apply expectThen_frugal (by decide)
  exact readLoop_frugal _ _ topReader_frugal l

/-! ## The loader -/

/-- **The loader accepts a stream exactly when it starts with a document**, and then has
read this document and nothing behind it. The source delivers the stream and then no
event, any number of times, before it fails. Of these the loader asks for one at most, so
it ends with a source that never fails as well. -/
theorem readTop_ok_iff (l : OverlayLoader) (evs : List YamlEvent) (n : Nat) :
    ((readTop l (evs ++ List.replicate n .noEvent)).result = .ok () ↔
        ∃ document rest, evs = document ++ rest ∧ IsDocument document) ∧
      (∀ document rest, evs = document ++ rest → IsDocument document →
        (readTop l (evs ++ List.replicate n .noEvent)).rest = rest ++ List.replicate n .noEvent) ∧
      n ≤ (readTop l (evs ++ List.replicate n .noEvent)).rest.length + 1 := by
  have reads := readTop_reads l (evs ++ List.replicate n .noEvent)
  have read {document rest : List YamlEvent} (split : evs = document ++ rest)
      (isDocument : IsDocument document) :
      (readDocument (evs ++ List.replicate n .noEvent)).2 =
        some (rest ++ List.replicate n .noEvent) :=
    (readDocument_recognises _ _).mpr ⟨document, by rw [split, List.append_assoc], isDocument⟩
  refine ⟨?_, ?_, ?_⟩
  · rw [reads.isOk_iff, Option.isSome_iff_exists]
    constructor
    · rintro ⟨rest, complete⟩
      obtain ⟨document, same, isDocument⟩ := (readDocument_recognises _ _).mp complete
      -- The document has no place for an event that is none, so it ends within the stream.
      rcases List.append_eq_append_iff.mp same with ⟨dry, rfl, none⟩ | ⟨after, rfl, _⟩
      · have empty : dry = [] := by
          apply List.eq_nil_iff_forall_not_mem.mpr
          intro ev member
          have dried := List.eq_of_mem_replicate (n := n) (none ▸ List.mem_append_left rest member)
          exact isDocument.noEvent_notMem (by simp [← dried, member])
        exact ⟨evs ++ dry, [], by simp [empty], isDocument⟩
      · exact ⟨document, after, rfl, isDocument⟩
    · rintro ⟨document, rest, split, isDocument⟩
      exact ⟨_, read split isDocument⟩
  · intro document rest split isDocument
    exact (reads.ended _ (read split isDocument)).2
  · exact (readTop_frugal l evs n).room

end Ykern.Overlay
