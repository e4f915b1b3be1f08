import Ykern.Foundation.Numerals

/-!
# The event stream of an overlay file and the document it carries

A YAML parser delivers a file as a stream of events, and after the last one only
errors. The overlay format uses mappings of scalars, nested at most four deep: at
the top, sections; in the operations and the multicast groups, one entry of
scalar fields for each key; in the attribute sets, one such mapping of entries for
each set.

This module reads the stream as that document and nothing more. A stream can end,
or leave the format, anywhere; reading then yields what was complete until there
(the complete entries, and the entries so far of a set left open) and no rest. The
loader of the next module also keeps arrays, capacities and error texts, and is
related to this reading by a refinement.
-/

set_option autoImplicit false

namespace Ykern.Overlay

/-- The events of libyaml. A source that has run dry delivers no event, or fails. -/
inductive YamlEvent where
  | noEvent
  | streamStart
  | streamEnd
  | documentStart
  | documentEnd
  | alias
  | scalar (value : Bytes)
  | sequenceStart
  | sequenceEnd
  | mappingStart
  | mappingEnd
  deriving DecidableEq

/-- `take_scalar`: a copy of a scalar as a C string. -/
def takeScalar (value : Bytes) : CStr := cString value

/-- `parse_uint32`: a number that fits 32 bits and is followed by nothing. -/
def parseUint32 (s : CStr) : Option UInt32 :=
  if s = [] then none
  else
    let v := strtoul s
    if v.erange = true ∨ v.converted = false ∨ v.rest ≠ [] ∨ 2 ^ 32 - 1 < v.value then none
    else some (UInt32.ofNat v.value)

/-! ## Reading a mapping -/

/-- Reads the value of a key: what there was of it, and the events after it when
it was complete. -/
structure ValueReader (α : Type) where
  read : CStr → List YamlEvent → List α × Option (List YamlEvent)
  shorter : ∀ key evs, ∀ rest ∈ (read key evs).2, rest.length ≤ evs.length

/-- The values of a mapping, whose start has been read. -/
def readMapping {α : Type} (value : ValueReader α) (evs : List YamlEvent) :
    List α × Option (List YamlEvent) :=
  match evs with
  | .mappingEnd :: rest => ([], some rest)
  | .scalar k :: rest =>
      let first := value.read (takeScalar k) rest
      match _found : first.2 with
      | none => (first.1, none)
      | some rest' =>
          let others := readMapping value rest'
          (first.1 ++ others.1, others.2)
  | _ => ([], none)
termination_by evs.length
decreasing_by
  have := value.shorter (takeScalar k) rest rest' _found
  simp only [List.length_cons]
  omega

theorem readMapping_shorter {α : Type} (value : ValueReader α) (evs : List YamlEvent) :
    ∀ rest ∈ (readMapping value evs).2, rest.length ≤ evs.length := by
  induction evs using readMapping.induct value with
  | case1 rest =>
      intro rest' member
      simp only [readMapping, Option.mem_def, Option.some.injEq] at member
      subst member
      exact Nat.le_succ _
  | case2 k rest first incomplete =>
      intro rest' member
      rw [readMapping] at member
      split at member
      · cases member
      · next found => rw [incomplete] at found; cases found
  | case3 k rest first rest' complete ih =>
      intro last member
      rw [readMapping] at member
      split at member
      · cases member
      · next rest'' complete' =>
          obtain rfl : rest' = rest'' := Option.some.inj (complete.symm.trans complete')
          have := value.shorter (takeScalar k) rest rest' complete
          have := ih last member
          simp only [List.length_cons]
          omega
  | case4 evs notEnd notScalar =>
      intro rest' member
      rw [readMapping.eq_3 _ _ notEnd notScalar] at member
      cases member

/-- Reading ends at a value that is not complete. -/
theorem readMapping_incomplete {α : Type} {value : ValueReader α} {k : Bytes}
    {rest : List YamlEvent} (incomplete : (value.read (takeScalar k) rest).2 = none) :
    (readMapping value (.scalar k :: rest)).2 = none := by
  rw [readMapping]
  split
  · rfl
  · next complete =>
      rw [incomplete] at complete
      cases complete

/-- Reading goes on behind a value that is complete. -/
theorem readMapping_complete {α : Type} {value : ValueReader α} {k : Bytes}
    {rest rest' : List YamlEvent} (complete : (value.read (takeScalar k) rest).2 = some rest') :
    readMapping value (.scalar k :: rest) =
      ((value.read (takeScalar k) rest).1 ++ (readMapping value rest').1,
        (readMapping value rest').2) := by
  rw [readMapping]
  split
  · next incomplete =>
      rw [incomplete] at complete
      cases complete
  · next rest'' complete' =>
      obtain rfl : rest' = rest'' := Option.some.inj (complete.symm.trans complete')
      rfl

/-- Reads a value that is itself a mapping, to which `complete` and `incomplete`
give what there was of it. -/
def ValueReader.mapping {α β : Type} (value : ValueReader α) (accepts : CStr → Bool)
    (complete incomplete : CStr → List α → List β) : ValueReader β where
  read key
    | .mappingStart :: rest =>
        if accepts key then
          match (readMapping value rest).2 with
          | none => (incomplete key (readMapping value rest).1, none)
          | some rest' => (complete key (readMapping value rest).1, some rest')
        else ([], none)
    | _ => ([], none)
  shorter key evs := by
    intro rest' member
    split at member
    · next rest =>
        split at member
        · split at member
          · cases member
          · next rest'' ended =>
              obtain rfl : rest'' = rest' := Option.some.inj member
              exact (readMapping_shorter value rest _ ended).trans (Nat.le_succ _)
        · cases member
    · cases member

/-! ## The document -/

/-- One entry of a section: its key and its scalar fields, in order. -/
structure Entry where
  key : CStr
  fields : List (CStr × CStr)
  deriving DecidableEq

/-- A section of the top-level mapping. -/
inductive Section where
  | operations (entries : List Entry)
  | mcastGroups (entries : List Entry)
  | attributeSets (sets : List (CStr × List Entry))
  | scalar (key value : CStr)
  deriving DecidableEq

/-- Reads a scalar under a key. -/
def scalarValue : ValueReader (CStr × CStr) where
  read key
    | .scalar v :: rest => ([(key, takeScalar v)], some rest)
    | _ => ([], none)
  shorter key evs := by
    intro rest' member
    split at member
    · obtain rfl := Option.some.inj member
      exact Nat.le_succ _
    · cases member

/-- Reads an entry, of which nothing is kept unless it is complete. -/
def entryValue (accepts : CStr → Bool) : ValueReader Entry :=
  scalarValue.mapping accepts (fun key fields => [⟨key, fields⟩]) fun _ _ => []

/-- The keys of attributes are numbers. -/
def isAttrKey (key : CStr) : Bool := (parseUint32 key).isSome

/-- Reads an attribute set, which is there from its name on. -/
def setValue : ValueReader (CStr × List Entry) :=
  (entryValue isAttrKey).mapping (fun _ => true) (fun name attrs => [(name, attrs)])
    fun name attrs => [(name, attrs)]

/-- Reads one section. -/
def sectionValue : ValueReader Section where
  read key :=
    if key = lit "operations" then
      ((entryValue fun _ => true).mapping (fun _ => true) (fun _ entries => [.operations entries])
        fun _ entries => [.operations entries]).read key
    else if key = lit "mcast_groups" then
      ((entryValue fun _ => true).mapping (fun _ => true) (fun _ entries => [.mcastGroups entries])
        fun _ entries => [.mcastGroups entries]).read key
    else if key = lit "attribute_sets" then
      (setValue.mapping (fun _ => true) (fun _ sets => [.attributeSets sets])
        fun _ sets => [.attributeSets sets]).read key
    else fun evs =>
      ((scalarValue.read key evs).1.map fun field => .scalar field.1 field.2,
        (scalarValue.read key evs).2)
  shorter key evs := by
    intro rest member
    split at member
    · exact ValueReader.shorter _ _ _ _ member
    split at member
    · exact ValueReader.shorter _ _ _ _ member
    split at member
    · exact ValueReader.shorter _ _ _ _ member
    · exact scalarValue.shorter _ _ _ member

/-- The document a stream carries. -/
def readDocument : List YamlEvent → List Section × Option (List YamlEvent)
  | .streamStart :: .documentStart :: .mappingStart :: rest => readMapping sectionValue rest
  | _ => ([], none)

namespace Section

/-- The operation entries of a section. -/
def opEntries : Section → List Entry
  | .operations entries => entries
  | _ => []

/-- The multicast group entries of a section. -/
def mcastEntries : Section → List Entry
  | .mcastGroups entries => entries
  | _ => []

/-- The attribute sets of a section. -/
def sets : Section → List (CStr × List Entry)
  | .attributeSets sets => sets
  | _ => []

end Section

end Ykern.Overlay
