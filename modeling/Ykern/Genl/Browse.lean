import Ykern.Genl.EthtoolRequest

/-!
# What browsing shows of an operation

The children of an operation node are the attributes of the set that browsing finds for
it, and they are told to the user as the keys an invocation accepts (`opPopulateChildren`).

Browsing has its own way to the set. It agrees with the generic invocation where that
finds one, and falls back to the header set of ethtool. The ethtool invocation does not
resolve keys at all: its request is one nest with what it was told of the interface
(`frames_ethtoolRequest`). So the attributes shown are accepted exactly when the operation
goes to the generic invocation, this finds the set without the fallback, and the ids in
the set are unique and fit below the flags of a type (`shown_accepted_iff`).
-/

set_option autoImplicit false

namespace Ykern.Genl

open Overlay Netlink

/-! ## Browsing -/

/-- `ykern_ynetlink_genl_attribute`. -/
structure Attribute where
  attrId : UInt32
  name : Option CStr
  setName : Option CStr
  typeHint : Option CStr
  deriving DecidableEq

/-- `attr_get_name`. -/
def attrGetName (a : Attribute) : CStr := a.name.getD (lit "?")

/-- `find_op_attr_set`. -/
def findOpAttrSet (op : Operation) (family : Family) : Option AttrSetOverlay :=
  (findAttrSet family.overlay (lit "ATTRS")).orElse fun _ =>
    ((stripOpSuffix op.overlayName 128).bind (findAttrSet family.overlay)).orElse fun _ =>
      ((stripOpPrefixGet op.overlayName 128).bind (findAttrSet family.overlay)).orElse fun _ =>
        if family.name = lit "ethtool" then findAttrSet family.overlay (lit "HEADER") else none

/-- `op_populate_children`, below a family if there is one. -/
def opPopulateChildren (op : Operation) (family : Option Family) : List Attribute :=
  match family.bind (findOpAttrSet op) with
  | none => []
  | some set => set.attrs.items.filterMap fun a =>
      a.name.map fun name => ⟨a.attrId, some name, some set.setName, a.typeHint⟩

/-- Every attribute shown has a name. -/
theorem name_of_mem_opPopulateChildren {op : Operation} {family : Option Family} {a : Attribute}
    (shown : a ∈ opPopulateChildren op family) : a.name = some (attrGetName a) := by
  unfold opPopulateChildren at shown
  split at shown
  · cases shown
  · obtain ⟨a', _, named⟩ := List.mem_filterMap.mp shown
    obtain ⟨name, _, rfl⟩ := Option.map_eq_some_iff.mp named
    rfl

/-- Where the generic invocation finds a set, browsing shows it. -/
theorem findOpAttrSet_of_generic {op : Operation} {family : Family} {attrsSet : AttrSetOverlay}
    (found : genericAttrSet op family = some attrsSet) :
    findOpAttrSet op family = some attrsSet := by
  unfold genericAttrSet at found
  unfold findOpAttrSet
  cases flat : findAttrSet family.overlay (lit "ATTRS") with
  | some set => rwa [flat] at found
  | none =>
      rw [flat] at found
      cases bySuffix : (stripOpSuffix op.overlayName 128).bind (findAttrSet family.overlay) with
      | some set => rwa [bySuffix] at found
      | none =>
          rw [bySuffix] at found
          cases byPrefix : (stripOpPrefixGet op.overlayName 128).bind (findAttrSet family.overlay) with
          | some set => rwa [byPrefix] at found
          | none => rw [byPrefix] at found; cases found

/-! ## Shown and accepted -/

/-- The room for attributes in the buffer of an invocation, less what the ethtool
invocation writes in any case. -/
def argRoom (op : Operation) (family : Family) : Nat :=
  if isEthtoolGet op family then 256 - 24 else 1024 - 20

/-- An invocation with a value for the attribute, if the value fits, sends a request that
has an attribute of this id with the value. The upper two bits of a type are flags and
no part of an id. -/
def Accepted (op : Operation) (family : Family) (a : Attribute) : Prop :=
  ∀ (val : CStr) (seq : UInt32), align4 (4 + (argPayload val).length) ≤ argRoom op family →
    ∃ m, (Request.invoke op family [(attrGetName a, val)]).message seq = some m ∧
      ∃ f ∈ nla.frames (msgAttrs m),
        (attrType f).toNat = a.attrId.toNat ∧ payload f = argPayload val

/-- The ethtool invocation accepts no attribute. -/
theorem not_accepted_ethtool {op : Operation} {family : Family} (a : Attribute)
    (ethtoolGet : isEthtoolGet op family = true) : ¬Accepted op family a := by
  intro accepted
  have fits : align4 (4 + (argPayload []).length) ≤ argRoom op family := by
    rw [argRoom, if_pos ethtoolGet]
    decide
  obtain ⟨m, message, f, member, -, value⟩ := accepted [] 0 fits
  rw [Request.message, if_pos ethtoolGet] at message
  split at message
  · cases message
  · next schema _ =>
      rw [frames_ethtoolRequest (Attempt.message_eq_some.mp message),
        List.mem_singleton] at member
      rw [member, payload_attr] at value
      -- The nest has a length that is a multiple of four, and the empty string one byte.
      have length := congrArg List.length value
      have whole := Framing.length_encode_mod (ethtoolInner schema [(attrGetName a, [])])
      rw [length] at whole
      revert whole
      decide

/-- What the generic invocation makes of one argument. -/
theorem message_generic {op : Operation} {family : Family} (key val : CStr) (seq : UInt32)
    (generic : isEthtoolGet op family = false) :
    (Request.invoke op family [(key, val)]).message seq =
      (genericRequest op family [(key, val)] seq).message := by
  rw [Request.message, if_neg (by simp [generic])]

/-- **The generic invocation accepts an attribute exactly when the set it finds gives the
name this id**, of which a type carries 14 bits. -/
theorem accepted_generic_iff {op : Operation} {family : Family} (a : Attribute)
    (generic : isEthtoolGet op family = false) :
    Accepted op family a ↔ ∃ attrsSet, genericAttrSet op family = some attrsSet ∧
      (attrSetLookupId attrsSet (attrGetName a)).map (fun id => id.toNat % 2 ^ 14) =
        some a.attrId.toNat := by
  have room : argRoom op family = 1004 := by rw [argRoom, if_neg (by simp [generic])]
  constructor
  · intro accepted
    obtain ⟨m, message, f, member, id, -⟩ := accepted [] 0 (by rw [room]; decide)
    rw [message_generic _ _ _ generic] at message
    have sent := Attempt.message_eq_some.mp message
    cases found : genericAttrSet op family with
    | none =>
        rw [genericRequest, if_neg (by simp), found] at sent
        cases sent
    | some attrsSet =>
        refine ⟨attrsSet, rfl, ?_⟩
        rcases genericRequest_sends op family 0 (List.cons_ne_nil _ _) found with
          ⟨_, never⟩ | ⟨goes, cmd, version, sent'⟩
        · exact absurd sent (never m)
        · obtain rfl := Attempt.send.inj (sent.symm.trans sent')
          rw [msgAttrs_msg, Framing.frames_encode (argAttr_isFrame goes), List.map_singleton,
            List.mem_singleton] at member
          have known : attrSetLookupId attrsSet (attrGetName a) ≠ none := by
            intro unknown
            exact goes (.inl ⟨_, List.mem_singleton_self _, unknown⟩)
          obtain ⟨attrId, lookup⟩ := Option.ne_none_iff_exists'.mp known
          rw [member, argAttr, lookup, Option.getD_some, attrType_attr,
            toNat_toUInt16_and_nlaTypeMask] at id
          rw [lookup, Option.map_some, id]
  · rintro ⟨attrsSet, found, same⟩ val seq fits
    obtain ⟨attrId, lookup, id⟩ := Option.map_eq_some_iff.mp same
    rcases genericRequest_sends op family seq (List.cons_ne_nil (attrGetName a, val) []) found with
      ⟨stops, _⟩ | ⟨goes, cmd, version, sent⟩
    · rw [room] at fits
      rcases stops with ⟨arg, member, unknown⟩ | tooLong
      · obtain rfl := List.mem_singleton.mp member
        cases lookup.symm.trans unknown
      · simp only [List.map_singleton, List.sum_singleton] at tooLong
        omega
    · rw [message_generic _ _ _ generic]
      refine ⟨_, Attempt.message_eq_some.mpr sent, argAttr attrsSet (attrGetName a, val), ?_, ?_, ?_⟩
      · rw [msgAttrs_msg, Framing.frames_encode (argAttr_isFrame goes)]
        exact List.mem_singleton_self _
      · rw [argAttr, lookup, Option.getD_some, attrType_attr, toNat_toUInt16_and_nlaTypeMask, id]
      · exact payload_attr _ _

/-- The overlay has a flat set, or one named after the operation. -/
def HasNamedSet (op : Operation) (family : Family) : Prop :=
  ∃ setName ∈ lit "ATTRS" :: ((stripOpSuffix op.overlayName 128).toList ++
      (stripOpPrefixGet op.overlayName 128).toList),
    (findAttrSet family.overlay setName).isSome = true

theorem genericAttrSet_isSome_iff (op : Operation) (family : Family) :
    (genericAttrSet op family).isSome = true ↔ HasNamedSet op family := by
  have orElse {α : Type} (first : Option α) (second : Unit → Option α) :
      (first.orElse second).isSome = true ↔
        first.isSome = true ∨ (second ()).isSome = true := by
    cases first <;> simp [Option.orElse]
  have bind (name : Option CStr) : (name.bind (findAttrSet family.overlay)).isSome = true ↔
      ∃ setName ∈ name.toList, (findAttrSet family.overlay setName).isSome = true := by
    cases name <;> simp
  rw [genericAttrSet, orElse, orElse, bind, bind, HasNamedSet]
  simp only [List.mem_cons, List.mem_append, or_and_right, exists_or, exists_eq_left]

/-- The set of the generic invocation resolves names to the first attribute shown with the
name. -/
theorem attrSetLookupId_eq_shown {op : Operation} {family : Family} {attrsSet : AttrSetOverlay}
    (found : genericAttrSet op family = some attrsSet) (key : CStr) :
    attrSetLookupId attrsSet key =
      ((opPopulateChildren op (some family)).find? fun a => a.name == some key).map (·.attrId) := by
  have named (a : AttrOverlay) : (a.name == some key) =
      (a.name.map fun name => (⟨a.attrId, some name, some attrsSet.setName, a.typeHint⟩ : Attribute)).any
        (fun a => a.name == some key) := by
    cases a.name <;> rfl
  rw [opPopulateChildren, Option.bind_some, findOpAttrSet_of_generic found, attrSetLookupId]
  simp only [List.find?_filterMap, ← named]
  cases first : attrsSet.attrs.items.find? fun a => a.name == some key with
  | none => rfl
  | some a =>
      have isKey : a.name = some key := by simpa using List.find?_some first
      rw [Option.bind_some, isKey]
      rfl

/-- Every attribute shown gets its own id from the set of the generic invocation exactly when
all ids have 14 bits and no name has two. -/
theorem lookup_shown_iff {op : Operation} {family : Family} {attrsSet : AttrSetOverlay}
    (found : genericAttrSet op family = some attrsSet) :
    (∀ a ∈ opPopulateChildren op (some family),
        (attrSetLookupId attrsSet (attrGetName a)).map (fun id => id.toNat % 2 ^ 14) =
          some a.attrId.toNat) ↔
      (∀ a ∈ opPopulateChildren op (some family), a.attrId.toNat < 2 ^ 14) ∧
        ∀ a ∈ opPopulateChildren op (some family), ∀ b ∈ opPopulateChildren op (some family),
          a.name = b.name → a.attrId = b.attrId := by
  -- The first attribute with the name of one that is shown.
  have first (a : Attribute) (shown : a ∈ opPopulateChildren op (some family)) :
      ∃ b ∈ opPopulateChildren op (some family), b.name = a.name ∧
        attrSetLookupId attrsSet (attrGetName a) = some b.attrId := by
    have name := name_of_mem_opPopulateChildren shown
    obtain ⟨b, found'⟩ : ∃ b, ((opPopulateChildren op (some family)).find? fun a' =>
        a'.name == some (attrGetName a)) = some b := by
      refine Option.isSome_iff_exists.mp (List.find?_isSome.mpr ⟨a, shown, ?_⟩)
      rw [name, beq_self_eq_true]
    have isKey : b.name = some (attrGetName a) := by simpa using List.find?_some found'
    refine ⟨b, List.mem_of_find?_eq_some found', isKey.trans name.symm, ?_⟩
    · rw [attrSetLookupId_eq_shown found, found', Option.map_some]
  constructor
  · intro resolved
    have small : ∀ a ∈ opPopulateChildren op (some family), a.attrId.toNat < 2 ^ 14 := by
      intro a shown
      obtain ⟨b, -, -, lookup⟩ := first a shown
      have id := resolved a shown
      rw [lookup, Option.map_some, Option.some.injEq] at id
      omega
    refine ⟨small, ?_⟩
    intro a shown b shown' same
    obtain ⟨c, shownC, -, lookup⟩ := first a shown
    have key : attrGetName a = attrGetName b := by rw [attrGetName, attrGetName, same]
    have id := resolved a shown
    have id' := resolved b shown'
    rw [← key, lookup] at id'
    rw [lookup] at id
    exact UInt32.toNat_inj.mp (Option.some.inj (id.symm.trans id'))
  · rintro ⟨small, unique⟩ a shown
    obtain ⟨b, shown', same, lookup⟩ := first a shown
    rw [lookup, Option.map_some, unique b shown' a shown same, Nat.mod_eq_of_lt (small a shown)]

/-- **What browsing shows is accepted exactly when** it is nothing, or the operation goes to
the generic invocation, the overlay has a set for it, all ids shown have 14 bits and no name
is shown with two ids. -/
theorem shown_accepted_iff (op : Operation) (family : Family) :
    (∀ a ∈ opPopulateChildren op (some family), Accepted op family a) ↔
      opPopulateChildren op (some family) = [] ∨
        isEthtoolGet op family = false ∧ HasNamedSet op family ∧
          (∀ a ∈ opPopulateChildren op (some family), a.attrId.toNat < 2 ^ 14) ∧
          ∀ a ∈ opPopulateChildren op (some family), ∀ b ∈ opPopulateChildren op (some family),
            a.name = b.name → a.attrId = b.attrId := by
  by_cases none : opPopulateChildren op (some family) = []
  · exact iff_of_true (by simp [none]) (Or.inl none)
  obtain ⟨first, shown⟩ := List.exists_mem_of_ne_nil _ none
  rw [or_iff_right none]
  cases route : isEthtoolGet op family with
  | true =>
      refine iff_of_false ?_ (fun generic => nomatch generic.1)
      intro accepted
      exact not_accepted_ethtool first route (accepted first shown)
  | false =>
      simp only [accepted_generic_iff _ route, ← genericAttrSet_isSome_iff]
      cases found : genericAttrSet op family with
      | none =>
          refine iff_of_false ?_ (fun named => nomatch named.2.1)
          intro accepted
          obtain ⟨attrsSet, impossible, -⟩ := accepted first shown
          cases impossible
      | some attrsSet =>
          simp only [Option.some.injEq, exists_eq_left', true_and, Option.isSome_some]
          exact lookup_shown_iff found

/-- The port of the link info is shown, and an invocation with a port sends a request
without it. -/
theorem port_not_sent :
    ⟨2, some (lit "PORT"), some (lit "LINKINFO"), none⟩ ∈
        opPopulateChildren linkinfoGet (some ethtoolFamily) ∧
      align4 (4 + (argPayload (lit "5")).length) ≤ argRoom linkinfoGet ethtoolFamily ∧
      ∃ m, (Request.invoke linkinfoGet ethtoolFamily [(lit "PORT", lit "5")]).message 1 = some m ∧
        ∀ f ∈ nla.frames (msgAttrs m), (attrType f).toNat ≠ 2 := by
  refine ⟨by decide +kernel, by decide +kernel, ?_⟩
  have schema : ethtoolSchema linkinfoGet ethtoolFamily = .ok ⟨lit "LINKINFO", ⟨lit "LINKINFO",
      ⟨[⟨1, some (lit "HEADER"), none⟩, ⟨2, some (lit "PORT"), none⟩], 16⟩⟩, 1, 2, 1⟩ := by
    rfl
  obtain ⟨m, sent⟩ : ∃ m, ethtoolRequest linkinfoGet ethtoolFamily ⟨lit "LINKINFO", ⟨lit "LINKINFO",
      ⟨[⟨1, some (lit "HEADER"), none⟩, ⟨2, some (lit "PORT"), none⟩], 16⟩⟩, 1, 2, 1⟩
      [(lit "PORT", lit "5")] 1 = .send m := ⟨_, rfl⟩
  refine ⟨m, ?_, ?_⟩
  · rw [Request.message, if_pos (by decide +kernel), schema]
    exact Attempt.message_eq_some.mpr sent
  · intro f member
    rw [frames_ethtoolRequest sent, List.mem_singleton] at member
    rw [member, attrType_attr]
    decide

end Ykern.Genl
