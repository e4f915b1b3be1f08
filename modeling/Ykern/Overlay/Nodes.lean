import Ykern.Foundation.Reorder
import Ykern.Overlay.Document

/-!
# The nodes of a YAML document

The events of a document are those of a tree of nodes. What the document reader of the
overlay format makes of the events is a function of the tree (`readDocument_node`): a
mapping is read entry by entry, and the document is complete when every node is what the
format expects in its place.

Trees that differ in the order of the entries of their mappings, at any level
(`YamlNode.Reordered`), are read to documents that differ in the order of what they hold
(`sectionsOf_reordered`).
-/

set_option autoImplicit false

namespace Ykern.Overlay

variable {α β : Type}

/-- A node of a YAML document. -/
inductive YamlNode where
  | scalar (value : Bytes)
  | alias
  | sequence (items : List YamlNode)
  | mapping (entries : List (YamlNode × YamlNode))

mutual

/-- The events of a node. -/
def YamlNode.events : YamlNode → List YamlEvent
  | .scalar value => [.scalar value]
  | .alias => [.alias]
  | .sequence items => .sequenceStart :: (itemEvents items ++ [.sequenceEnd])
  | .mapping entries => .mappingStart :: (entryEvents entries ++ [.mappingEnd])

/-- The events of the items of a sequence. -/
def itemEvents : List YamlNode → List YamlEvent
  | [] => []
  | item :: items => item.events ++ itemEvents items

/-- The events of the entries of a mapping. -/
def entryEvents : List (YamlNode × YamlNode) → List YamlEvent
  | [] => []
  | (key, value) :: entries => key.events ++ (value.events ++ entryEvents entries)

end

/-! ## What a node is read to -/

namespace YamlNode

/-- The text of a scalar. -/
def scalar? : YamlNode → Option CStr
  | .scalar value => some (takeScalar value)
  | _ => none

/-- An entry of a mapping, given what its value is to be. -/
def entryOf (of : CStr → YamlNode → Option α) (entry : YamlNode × YamlNode) : Option α :=
  entry.1.scalar?.bind fun key => of key entry.2

/-- A mapping, given what its values are to be. -/
def mappingOf (of : CStr → YamlNode → Option α) : YamlNode → Option (List α)
  | .mapping entries => entries.mapM (entryOf of)
  | _ => none

/-- A scalar field. -/
def fieldOf (key : CStr) (node : YamlNode) : Option (CStr × CStr) := node.scalar?.map (key, ·)

/-- An entry of a section, under a key that is accepted. -/
def rowOf (accepts : CStr → Bool) (key : CStr) (node : YamlNode) : Option Entry :=
  if accepts key then (node.mappingOf fieldOf).map (⟨key, ·⟩) else none

/-- An attribute set. -/
def setOf (key : CStr) (node : YamlNode) : Option (CStr × List Entry) :=
  (node.mappingOf (rowOf isAttrKey)).map (key, ·)

/-- A section. -/
def sectionOf (key : CStr) (node : YamlNode) : Option Section :=
  if key = lit "operations" then (node.mappingOf (rowOf fun _ => true)).map .operations
  else if key = lit "mcast_groups" then (node.mappingOf (rowOf fun _ => true)).map .mcastGroups
  else if key = lit "attribute_sets" then (node.mappingOf setOf).map .attributeSets
  else (fieldOf key node).map fun field => .scalar field.1 field.2

/-- The sections of a document. -/
def sectionsOf (root : YamlNode) : Option (List Section) := root.mappingOf sectionOf

end YamlNode

open YamlNode

/-- Reading did this: it is complete with these values, or it is not complete. -/
def ReadAs (r : List α × Option (List YamlEvent)) (values : Option (List α))
    (rest : List YamlEvent) : Prop :=
  match values with
  | some values => r = (values, some rest)
  | none => r.2 = none

/-- A reader makes of the events of a node what the node is. -/
def ValueReader.ReadsNodes (value : ValueReader α) (of : CStr → YamlNode → Option α) : Prop :=
  ∀ key node rest, ReadAs (value.read key (node.events ++ rest)) ((of key node).map ([·])) rest

/-- **A mapping is read entry by entry.** -/
theorem readMapping_node {value : ValueReader α} {of : CStr → YamlNode → Option α}
    (reads : value.ReadsNodes of) (entries : List (YamlNode × YamlNode))
    (rest : List YamlEvent) :
    ReadAs (readMapping value (entryEvents entries ++ .mappingEnd :: rest))
      (entries.mapM (entryOf of)) rest := by
  -- A node that is not a scalar is no key.
  have notKey (ev : YamlEvent) (notEnd : ev ≠ .mappingEnd) (notScalar : ∀ k, ev ≠ .scalar k)
      (behind : List YamlEvent) : (readMapping value (ev :: behind)).2 = none := by
    rw [readMapping.eq_3 _ _ (fun _ same => notEnd (List.cons.inj same).1)
      (fun k _ same => notScalar k (List.cons.inj same).1)]
  induction entries with
  | nil =>
      show readMapping value (.mappingEnd :: rest) = _
      rw [readMapping]
      rfl
  | cons entry entries ih =>
      obtain ⟨key, node⟩ := entry
      rw [entryEvents, List.mapM_cons, List.append_assoc, List.append_assoc]
      cases key with
      | scalar k =>
          have first := reads (takeScalar k) node (entryEvents entries ++ .mappingEnd :: rest)
          have isEntry : entryOf of (.scalar k, node) = of (takeScalar k) node := rfl
          rw [isEntry]
          show ReadAs (readMapping value (.scalar k :: (node.events ++ _))) _ _
          cases found : of (takeScalar k) node with
          | none =>
              rw [found] at first
              exact readMapping_incomplete first
          | some a =>
              rw [found] at first
              have complete : value.read (takeScalar k) _ = ([a], some _) := first
              rw [readMapping_complete (congrArg Prod.snd complete), complete]
              cases others : entries.mapM (entryOf of) with
              | none =>
                  rw [others] at ih
                  exact ih
              | some as =>
                  rw [others] at ih
                  have done : readMapping value _ = (as, some rest) := ih
                  rw [done]
                  rfl
      | «alias» => exact notKey .alias (by simp) (by simp) _
      | sequence items => exact notKey .sequenceStart (by simp) (by simp) _
      | mapping inner => exact notKey .mappingStart (by simp) (by simp) _

theorem scalarValue_readsNodes : scalarValue.ReadsNodes fieldOf := by
  intro key node rest
  cases node with
  | scalar value => rfl
  | «alias» => rfl
  | sequence items => rfl
  | mapping entries => rfl

/-- A reader of mappings makes of a node the mapping it is. -/
theorem mapping_readsNodes {value : ValueReader α} {of : CStr → YamlNode → Option α}
    (reads : value.ReadsNodes of) (accepts : CStr → Bool)
    {complete incomplete : CStr → List α → List β} {whole : CStr → List α → β}
    (single : ∀ key values, complete key values = [whole key values]) :
    (value.mapping accepts complete incomplete).ReadsNodes fun key node =>
      if accepts key then (node.mappingOf of).map (whole key) else none := by
  intro key node rest
  have others {r : List β × Option (List YamlEvent)} (unread : r.2 = none)
      (notMapping : node.mappingOf of = none) :
      ReadAs r ((if accepts key then (node.mappingOf of).map (whole key) else none).map ([·]))
        rest := by
    rw [notMapping]
    split
    · exact unread
    · exact unread
  cases node with
  | scalar value => exact others rfl rfl
  | «alias» => exact others rfl rfl
  | sequence items => exact others rfl rfl
  | mapping entries =>
      have inner := readMapping_node reads entries rest
      have isMapping : (YamlNode.mapping entries).mappingOf of = entries.mapM (entryOf of) := rfl
      simp only [ValueReader.mapping, YamlNode.events, List.cons_append, List.append_assoc,
        List.nil_append, isMapping]
      by_cases accepted : accepts key = true
      · rw [if_pos accepted, if_pos accepted]
        cases read : entries.mapM (entryOf of) with
        | none =>
            rw [read] at inner
            have unread : (readMapping value _).2 = none := inner
            rw [unread]
            rfl
        | some values =>
            rw [read] at inner
            have done : readMapping value _ = (values, some rest) := inner
            rw [done, single]
            rfl
      · rw [if_neg accepted, if_neg accepted]
        rfl

theorem entryValue_readsNodes (accepts : CStr → Bool) :
    (entryValue accepts).ReadsNodes (rowOf accepts) :=
  mapping_readsNodes scalarValue_readsNodes accepts fun _ _ => rfl

theorem setValue_readsNodes : setValue.ReadsNodes setOf :=
  mapping_readsNodes (entryValue_readsNodes isAttrKey) (fun _ => true) fun _ _ => rfl

theorem sectionValue_readsNodes : sectionValue.ReadsNodes sectionOf := by
  intro key node rest
  simp only [sectionValue, sectionOf]
  split
  · exact mapping_readsNodes (entryValue_readsNodes fun _ => true) _ (fun _ _ => rfl) key node rest
  split
  · exact mapping_readsNodes (entryValue_readsNodes fun _ => true) _ (fun _ _ => rfl) key node rest
  split
  · exact mapping_readsNodes setValue_readsNodes _ (fun _ _ => rfl) key node rest
  · have field := scalarValue_readsNodes key node rest
    cases found : fieldOf key node with
    | none =>
        rw [found] at field
        exact field
    | some value =>
        rw [found] at field
        have done : scalarValue.read key _ = ([value], some rest) := field
        simp only [done]
        rfl

/-- **What a document is read to** is a function of its tree. -/
theorem readDocument_node (root : YamlNode) (rest : List YamlEvent) :
    ReadAs (readDocument (.streamStart :: .documentStart :: (root.events ++ rest)))
      root.sectionsOf rest := by
  cases root with
  | scalar value => rfl
  | «alias» => rfl
  | sequence items => rfl
  | mapping entries =>
      rw [YamlNode.events, List.cons_append, List.append_assoc, List.singleton_append]
      exact readMapping_node sectionValue_readsNodes entries rest

/-! ## Entries in another order -/

/-- The entries of mappings, at any level, are in another order. -/
inductive YamlNode.Reordered : YamlNode → YamlNode → Prop where
  | scalar (value : Bytes) : Reordered (.scalar value) (.scalar value)
  | alias : Reordered .alias .alias
  | sequence {items items' : List YamlNode} (same : List.Forall₂ Reordered items items') :
      Reordered (.sequence items) (.sequence items')
  | mapping {entries mid entries' : List (YamlNode × YamlNode)}
      (keys : List.Forall₂ Reordered (entries.map (·.1)) (mid.map (·.1)))
      (values : List.Forall₂ Reordered (entries.map (·.2)) (mid.map (·.2)))
      (perm : mid.Perm entries') : Reordered (.mapping entries) (.mapping entries')

/-- A mapping of two entries may be written the other way round. -/
theorem YamlNode.Reordered.swap {key key' : Bytes} {node node' other other' : YamlNode}
    (first : node.Reordered node') (second : other.Reordered other') :
    (YamlNode.mapping [(.scalar key, node), (.scalar key', other)]).Reordered
      (.mapping [(.scalar key', other'), (.scalar key, node')]) :=
  @Reordered.mapping _ [(.scalar key, node'), (.scalar key', other')] _
    (.cons (.scalar key) (.cons (.scalar key') .nil)) (.cons first (.cons second .nil))
    (.swap _ _ _)

/-- A mapping of one entry. -/
theorem YamlNode.Reordered.single {key : Bytes} {node node' : YamlNode}
    (same : node.Reordered node') :
    (YamlNode.mapping [(.scalar key, node)]).Reordered (.mapping [(.scalar key, node')]) :=
  @Reordered.mapping _ [(.scalar key, node')] _ (.cons (.scalar key) .nil) (.cons same .nil)
    (.refl _)

/-- Entries with the same key and the same fields. -/
def Entry.Reordered (e e' : Entry) : Prop := e.key = e'.key ∧ e.fields.Perm e'.fields

/-- Sets with the same name and the same attributes. -/
def SetReordered (set set' : CStr × List Entry) : Prop :=
  set.1 = set'.1 ∧ PermWith Entry.Reordered set.2 set'.2

/-- Sections that hold the same. -/
inductive Section.Reordered : Section → Section → Prop where
  | operations {entries entries' : List Entry} (same : PermWith Entry.Reordered entries entries') :
      Reordered (.operations entries) (.operations entries')
  | mcastGroups {entries entries' : List Entry}
      (same : PermWith Entry.Reordered entries entries') :
      Reordered (.mcastGroups entries) (.mcastGroups entries')
  | attributeSets {sets sets' : List (CStr × List Entry)}
      (same : PermWith SetReordered sets sets') :
      Reordered (.attributeSets sets) (.attributeSets sets')
  | scalar (key value : CStr) : Reordered (.scalar key value) (.scalar key value)

theorem Entry.Reordered.refl (e : Entry) : e.Reordered e := ⟨rfl, .refl _⟩

theorem SetReordered.refl (set : CStr × List Entry) : SetReordered set set :=
  ⟨rfl, .refl Entry.Reordered.refl _⟩

theorem Section.Reordered.refl (s : Section) : s.Reordered s := by
  cases s with
  | operations entries => exact .operations (.refl Entry.Reordered.refl _)
  | mcastGroups entries => exact .mcastGroups (.refl Entry.Reordered.refl _)
  | attributeSets sets => exact .attributeSets (.refl SetReordered.refl _)
  | scalar key value => exact .scalar key value

namespace YamlNode

variable {node node' : YamlNode}

/-- Two ways to make something of the values of a mapping agree on reordered values. -/
def Respects (R : α → α → Prop) (of : CStr → YamlNode → Option α) : Prop :=
  ∀ key node node', node.Reordered node' → Option.Rel R (of key node) (of key node')

theorem Reordered.scalar?_eq (reordered : node.Reordered node') : node.scalar? = node'.scalar? := by
  cases reordered with
  | scalar value => rfl
  | «alias» => rfl
  | sequence _ => rfl
  | mapping _ _ _ => rfl

/-- **A mapping in another order is read to the same in another order.** -/
theorem Reordered.mappingOf {R : α → α → Prop} {of : CStr → YamlNode → Option α}
    (respects : Respects R of) (reordered : node.Reordered node') :
    Option.Rel (PermWith R) (node.mappingOf of) (node'.mappingOf of) := by
  cases reordered with
  | scalar value => exact .none
  | «alias» => exact .none
  | sequence _ => exact .none
  | @mapping entries mid entries' keys values perm =>
      rw [List.forall₂_map_left_iff, List.forall₂_map_right_iff] at keys values
      have both : List.Forall₂ (fun e e' : YamlNode × YamlNode =>
          e.1.Reordered e'.1 ∧ e.2.Reordered e'.2) entries mid := by
        clear perm
        induction keys with
        | nil => exact .nil
        | cons key _ ih =>
            cases values with
            | cons value values => exact .cons ⟨key, value⟩ (ih values)
      refine PermWith.mapM ?_ ⟨mid, both, perm⟩
      intro e e' same
      rw [entryOf, entryOf, same.1.scalar?_eq]
      cases e'.1.scalar? with
      | none => exact .none
      | some key => exact respects key e.2 e'.2 same.2

theorem fieldOf_respects : Respects Eq fieldOf := by
  intro key node node' reordered
  rw [fieldOf, fieldOf, reordered.scalar?_eq]
  cases node'.scalar? with
  | none => exact .none
  | some value => exact .some rfl

/-- What is made of a whole mapping respects the order of its entries. -/
theorem Reordered.wholeOf {R : α → α → Prop} {of : CStr → YamlNode → Option α}
    (respects : Respects R of) {S : β → β → Prop} {whole : List α → β}
    (same : ∀ values values', PermWith R values values' → S (whole values) (whole values'))
    (reordered : node.Reordered node') :
    Option.Rel S ((node.mappingOf of).map whole) ((node'.mappingOf of).map whole) := by
  have inner := reordered.mappingOf respects
  generalize node.mappingOf of = read, node'.mappingOf of = read' at inner
  cases inner with
  | none => exact .none
  | some perm => exact .some (same _ _ perm)

theorem rowOf_respects (accepts : CStr → Bool) : Respects Entry.Reordered (rowOf accepts) := by
  intro key node node' reordered
  rw [rowOf, rowOf]
  split
  · apply reordered.wholeOf fieldOf_respects
    intro fields fields' same
    exact ⟨rfl, same.perm⟩
  · exact .none

theorem setOf_respects : Respects SetReordered setOf := by
  intro key node node' reordered
  apply reordered.wholeOf (rowOf_respects isAttrKey)
  intro attrs attrs' same
  exact ⟨rfl, same⟩

theorem sectionOf_respects : Respects Section.Reordered sectionOf := by
  intro key node node' reordered
  rw [sectionOf, sectionOf]
  split
  · apply reordered.wholeOf (rowOf_respects fun _ => true)
    intro entries entries' same
    exact .operations same
  split
  · apply reordered.wholeOf (rowOf_respects fun _ => true)
    intro entries entries' same
    exact .mcastGroups same
  split
  · apply reordered.wholeOf setOf_respects
    intro sets sets' same
    exact .attributeSets same
  · have field := fieldOf_respects key node node' reordered
    generalize fieldOf key node = read, fieldOf key node' = read' at field
    cases field with
    | none => exact .none
    | some same =>
        subst same
        exact .some (.scalar _ _)

/-- **A document in another order is read to the same sections in another order.** -/
theorem sectionsOf_reordered (reordered : node.Reordered node') :
    Option.Rel (PermWith Section.Reordered) node.sectionsOf node'.sectionsOf :=
  reordered.mappingOf sectionOf_respects

end YamlNode

end Ykern.Overlay
