import Ykern.Genl.EthtoolRequest

/-!
# Whether every argument is sent

An argument of an invocation selects a field by its key: the generic invocation looks the
key up in the attribute set, the ethtool invocation knows the two keys of the interface
(`argField`). A request honours its arguments when each selects a field and the request has
these fields, each as often as it was asked for (`Honoured`).

The generic invocation goes through its arguments one by one and stops at a key it does not
know. The ethtool invocation looks for its two keys and for nothing else: a key it does not
know, a second argument with the same key, and the index beside the name are dropped. So it
honours a list of arguments only if it is a single one of its own (`honoursArgs_iff`).
-/

set_option autoImplicit false

namespace Ykern.Genl

open Overlay Netlink

/-! ## Fields -/

/-- The field an argument selects, as its identifier and the encoding of the value. -/
def argField (op : Operation) (family : Family) (arg : CStr × CStr) : Option (Nat × Bytes) :=
  if isEthtoolGet op family then
    match ethtoolSchema op family with
    | .error _ => none
    | .ok schema =>
        if arg.1 = lit "ifname" then some (schema.devNameId.toNat, arg.2 ++ [0])
        else if arg.1 = lit "ifindex" then
          some (schema.devIndexId.toNat, bytes32 (UInt32.ofNat (strtoul arg.2).value))
        else none
  else
    (genericAttrSet op family).bind fun attrsSet =>
      (attrSetLookupId attrsSet arg.1).map fun id => (id.toNat, argPayload arg.2)

/-- The attributes of a request that carry arguments: those in the header nest of an
ethtool request, and all of them otherwise. -/
def argAttrs (op : Operation) (family : Family) (m : Bytes) : List Bytes :=
  if isEthtoolGet op family then
    match ethtoolSchema op family with
    | .error _ => []
    | .ok schema =>
        ((nla.frames (msgAttrs m)).filter fun nest =>
          (attrType nest).toNat == schema.hdrAttrId.toNat).flatMap fun nest =>
            nla.frames (payload nest)
  else nla.frames (msgAttrs m)

/-- An attribute as the receiver reads it: its type without flags, and its payload. -/
def readField (f : Bytes) : Nat × Bytes := ((attrType f).toNat, payload f)

/-- Every argument selects a field, and the request has these fields. -/
def Honoured (op : Operation) (family : Family) (args : InvokeArgs) (m : Bytes) : Prop :=
  (args.map (argField op family)).Subperm
    ((argAttrs op family m).map fun f => some (readField f))

/-- Whatever is sent honours the arguments, and is a dump only without arguments. -/
def HonoursArgs (op : Operation) (family : Family) (args : InvokeArgs) : Prop :=
  ∀ seq m, (Request.invoke op family args).message seq = some m →
    Honoured op family args m ∧ (args ≠ [] → msgFlags m &&& nlmFDump = 0)

/-! ## When nothing is sent -/

/-- Nothing is sent: the lookups for the request fail, or the arguments are refused. -/
def Rejected (op : Operation) (family : Family) (args : InvokeArgs) : Prop :=
  if isEthtoolGet op family then
    ∀ schema, ethtoolSchema op family = .ok schema → EthtoolRefused args
  else
    args ≠ [] ∧ ∀ attrsSet, genericAttrSet op family = some attrsSet → Refused attrsSet 1004 args

/-- An identifier is read back when it has 14 bits. -/
theorem readField_attr (id : UInt32) (data : Bytes) :
    readField (attr id.toUInt16 data) = (id.toNat % 2 ^ 14, data) := by
  rw [readField, attrType_attr, toNat_toUInt16_and_nlaTypeMask, payload_attr]

/-- The nest is the header exactly when the identifier of the header has 14 bits. -/
theorem attrType_nest_eq_iff (id : UInt32) (data : Bytes) :
    (attrType (attr (id.toUInt16 ||| nlaFNested) data)).toNat = id.toNat ↔
      id.toNat < 2 ^ 14 := by
  rw [attrType_attr, or_nlaFNested_and_nlaTypeMask, toNat_toUInt16_and_nlaTypeMask]
  omega

/-! ## The ethtool invocation -/

section Ethtool

variable {op : Operation} {family : Family} {schema : EthtoolSchema} {args : InvokeArgs}

/-- The message of an ethtool read. -/
theorem message_ethtool (route : isEthtoolGet op family = true)
    (found : ethtoolSchema op family = .ok schema) (seq : UInt32) :
    (Request.invoke op family args).message seq =
      (ethtoolRequest op family schema args seq).message := by
  rw [Request.message, if_pos route, found]

/-- The fields of the request of an ethtool read. -/
theorem argAttrs_ethtool (route : isEthtoolGet op family = true)
    (found : ethtoolSchema op family = .ok schema) (accepted : ¬EthtoolRefused args)
    {seq : UInt32} {m : Bytes} (sent : ethtoolRequest op family schema args seq = .send m) :
    argAttrs op family m =
      if schema.hdrAttrId.toNat < 2 ^ 14 then ethtoolInner schema args else [] := by
  rw [argAttrs, if_pos route, found]
  dsimp only
  rw [frames_ethtoolRequest sent]
  have header := attrType_nest_eq_iff schema.hdrAttrId (Framing.encode (ethtoolInner schema args))
  by_cases small : schema.hdrAttrId.toNat < 2 ^ 14
  · rw [if_pos small, List.filter_cons_of_pos (by simpa using header.mpr small), List.filter_nil,
      List.flatMap_singleton, payload_attr, Framing.frames_encode (ethtoolInner_isFrame accepted)]
  · rw [if_neg small, List.filter_cons_of_neg (by simpa using mt header.mp small)]
    rfl

/-- What one argument of its own selects is what the ethtool invocation packs. -/
theorem argField_ethtool (route : isEthtoolGet op family = true)
    (found : ethtoolSchema op family = .ok schema) (arg : CStr × CStr) :
    argField op family arg =
      (ethtoolSelector schema [arg]).map fun field => (field.1.toNat, field.2) := by
  rw [argField, if_pos route, found]
  dsimp only
  simp only [ethtoolSelector, argsLookup]
  by_cases name : arg.1 = lit "ifname"
  · simp [name]
  · by_cases index : arg.1 = lit "ifindex"
    · have other : lit "ifindex" ≠ lit "ifname" := by decide
      simp [index, other]
    · simp [name, index]

/-- Without a field the ethtool request is a dump. -/
theorem dumpMode_eq (schema : EthtoolSchema) (args : InvokeArgs) :
    ethtoolDumpMode args = (ethtoolSelector schema args).isNone := by
  rw [ethtoolDumpMode, ethtoolSelector]
  cases argsLookup args (lit "ifname") <;> cases argsLookup args (lit "ifindex") <;> rfl

/-- The request of an ethtool read honours a single argument of its own and no others. -/
theorem honoured_ethtool_iff (route : isEthtoolGet op family = true)
    (found : ethtoolSchema op family = .ok schema) (accepted : ¬EthtoolRefused args)
    {seq : UInt32} {m : Bytes} (sent : ethtoolRequest op family schema args seq = .send m) :
    Honoured op family args m ↔
      args = [] ∨ schema.hdrAttrId.toNat < 2 ^ 14 ∧ args.length = 1 ∧
        ∀ arg ∈ args, ∃ field, argField op family arg = some field ∧ field.1 < 2 ^ 14 := by
  rw [Honoured, argAttrs_ethtool route found accepted sent]
  have atMostOne : (ethtoolInner schema args).length ≤ 1 := by
    rw [ethtoolInner, List.length_map]
    cases ethtoolSelector schema args <;> simp
  cases args with
  | nil => simp
  | cons arg rest =>
      cases rest with
      | nil =>
          rw [List.map_singleton, List.singleton_subperm_iff]
          by_cases header : schema.hdrAttrId.toNat < 2 ^ 14
          · rw [if_pos header, argField_ethtool route found, ethtoolInner]
            simp only [header, reduceCtorEq, List.length_singleton, List.mem_singleton, forall_eq,
              true_and, false_or, argField_ethtool route found]
            cases ethtoolSelector schema [arg] with
            | none => simp
            | some field =>
                simp only [Option.toList_some, List.map_singleton, List.mem_singleton,
                  readField_attr, Option.map_some, Option.some.injEq, Prod.mk.injEq, and_true,
                  exists_eq_left']
                omega
          · rw [if_neg header]
            apply iff_of_false (by simp)
            rintro (impossible | ⟨small, -⟩)
            · cases impossible
            · exact header small
      | cons arg' more =>
          refine iff_of_false ?_ (by simp)
          intro honoured
          have length := honoured.length_le
          rw [List.length_map, List.length_map] at length
          split at length <;> simp at length
          omega

end Ethtool

/-! ## The generic invocation -/

section Generic

variable {op : Operation} {family : Family} {attrsSet : AttrSetOverlay} {args : InvokeArgs}

/-- The field of an argument of the generic invocation. -/
theorem argField_generic (generic : isEthtoolGet op family = false)
    (found : genericAttrSet op family = some attrsSet) (arg : CStr × CStr) :
    argField op family arg =
      (attrSetLookupId attrsSet arg.1).map fun id => (id.toNat, argPayload arg.2) := by
  rw [argField, if_neg (by simp [generic]), found, Option.bind_some]

/-- The request of the generic invocation honours all its arguments if their identifiers
have 14 bits. -/
theorem honoured_generic_iff (generic : isEthtoolGet op family = false)
    (found : genericAttrSet op family = some attrsSet) (accepted : ¬Refused attrsSet 1004 args)
    {m : Bytes} (attrs : msgAttrs m = Framing.encode (args.map (argAttr attrsSet))) :
    Honoured op family args m ↔
      ∀ arg ∈ args, ∃ field, argField op family arg = some field ∧ field.1 < 2 ^ 14 := by
  have known (arg : CStr × CStr) (member : arg ∈ args) : ∃ id,
      attrSetLookupId attrsSet arg.1 = some id ∧
        argField op family arg = some (id.toNat, argPayload arg.2) ∧
        some (readField (argAttr attrsSet arg)) =
          some (id.toNat % 2 ^ 14, argPayload arg.2) := by
    have isKnown : attrSetLookupId attrsSet arg.1 ≠ none := by
      intro unknown
      exact accepted (.inl ⟨arg, member, unknown⟩)
    obtain ⟨id, lookup⟩ := Option.ne_none_iff_exists'.mp isKnown
    refine ⟨id, lookup, ?_, ?_⟩
    · rw [argField_generic generic found, lookup, Option.map_some]
    · rw [argAttr, lookup, Option.getD_some, readField_attr]
  have sent : (argAttrs op family m).map (fun f => some (readField f)) =
      args.map fun arg => some (readField (argAttr attrsSet arg)) := by
    rw [argAttrs, if_neg (by simp [generic]), attrs,
      Framing.frames_encode (argAttr_isFrame accepted), List.map_map]
    rfl
  rw [Honoured, sent]
  constructor
  · intro honoured arg member
    obtain ⟨id, -, field, -⟩ := known arg member
    refine ⟨_, field, ?_⟩
    -- The field is one of those that were read, and these have 14 bits.
    have among := honoured.subset (List.mem_map_of_mem (f := argField op family) member)
    obtain ⟨arg', member', same⟩ := List.mem_map.mp among
    obtain ⟨id', -, -, read⟩ := known arg' member'
    rw [read, field] at same
    have identifier := congrArg Prod.fst (Option.some.inj same)
    dsimp only at identifier ⊢
    omega
  · intro small
    have same : args.map (argField op family) =
        args.map fun arg => some (readField (argAttr attrsSet arg)) := by
      apply List.map_congr_left
      intro arg member
      obtain ⟨id, -, field, read⟩ := known arg member
      obtain ⟨field', field'', bound⟩ := small arg member
      obtain rfl := Option.some.inj (field.symm.trans field'')
      rw [read, field, Nat.mod_eq_of_lt bound]
    rw [same]

end Generic

/-! ## The invocations -/

/-- Without a schema an ethtool read is rejected, and with one when its arguments are
refused. -/
theorem rejected_ethtool_iff {op : Operation} {family : Family} {schema : EthtoolSchema}
    {args : InvokeArgs} (route : isEthtoolGet op family = true)
    (found : ethtoolSchema op family = .ok schema) :
    Rejected op family args ↔ EthtoolRefused args := by
  rw [Rejected, if_pos route, found]
  simp only [Except.ok.injEq, forall_eq']

theorem rejected_generic_iff {op : Operation} {family : Family} {attrsSet : AttrSetOverlay}
    {args : InvokeArgs} (generic : isEthtoolGet op family = false) (nonempty : args ≠ [])
    (found : genericAttrSet op family = some attrsSet) :
    Rejected op family args ↔ Refused attrsSet 1004 args := by
  rw [Rejected, if_neg (by simp [generic]), found]
  simp only [Option.some.injEq, forall_eq', ne_eq, nonempty, not_false_eq_true, true_and]

/-- **Nothing is sent exactly when the arguments are rejected.** -/
theorem message_eq_none_iff (op : Operation) (family : Family) (args : InvokeArgs)
    (seq : UInt32) :
    (Request.invoke op family args).message seq = none ↔ Rejected op family args := by
  have unsent {attempt : Attempt} : attempt.message = none ↔ ∀ m, attempt ≠ .send m := by
    cases attempt <;> simp [Attempt.message]
  cases route : isEthtoolGet op family with
  | true =>
      cases found : ethtoolSchema op family with
      | error answer =>
          refine iff_of_true ?_ ?_
          · rw [Request.message, if_pos route, found]
          · rw [Rejected, if_pos route, found]
            intro schema impossible
            cases impossible
      | ok schema =>
          rw [message_ethtool route found, rejected_ethtool_iff route found, unsent]
          rcases ethtoolRequest_sends op family schema args seq with
            ⟨refused, never⟩ | ⟨accepted, cmd, version, sent⟩
          · exact iff_of_true never refused
          · exact iff_of_false (fun never => never _ sent) accepted
  | false =>
      rw [Request.message, if_neg (by simp [route]), unsent]
      by_cases empty : args = []
      · refine iff_of_false ?_ ?_
        · intro never
          apply never (requestBuf op family args.isEmpty seq 1024).message
          rw [genericRequest, if_pos (by simp [empty])]
        · rw [Rejected, if_neg (by simp [route])]
          intro rejected
          exact rejected.1 empty
      · cases found : genericAttrSet op family with
        | none =>
            refine iff_of_true ?_ ?_
            · intro m sent
              rw [genericRequest, if_neg (by simpa using empty), found] at sent
              cases sent
            · rw [Rejected, if_neg (by simp [route]), found]
              refine ⟨empty, ?_⟩
              intro attrsSet impossible
              cases impossible
        | some attrsSet =>
            rw [rejected_generic_iff route empty found]
            rcases genericRequest_sends op family seq empty found with
              ⟨refused, never⟩ | ⟨accepted, cmd, version, sent⟩
            · exact iff_of_true never refused
            · exact iff_of_false (fun never => never _ sent) accepted

/-- The condition under which what is sent honours the arguments: there are none, or each
selects a field whose identifier has 14 bits, and for an ethtool read there is only one. -/
def Selective (op : Operation) (family : Family) (args : InvokeArgs) : Prop :=
  args = [] ∨
    (∀ arg ∈ args, ∃ field, argField op family arg = some field ∧ field.1 < 2 ^ 14) ∧
      ∀ schema, isEthtoolGet op family = true → ethtoolSchema op family = .ok schema →
        args.length = 1 ∧ schema.hdrAttrId.toNat < 2 ^ 14

/-- What is sent honours the arguments exactly when they are selective. -/
theorem honoured_iff_selective {op : Operation} {family : Family} {args : InvokeArgs}
    {seq : UInt32} {m : Bytes}
    (message : (Request.invoke op family args).message seq = some m) :
    (Honoured op family args m ∧ (args ≠ [] → msgFlags m &&& nlmFDump = 0)) ↔
      Selective op family args := by
  have accepted : ¬Rejected op family args := by
    intro rejected
    rw [(message_eq_none_iff op family args seq).mpr rejected] at message
    cases message
  by_cases empty : args = []
  · subst empty
    exact iff_of_true ⟨List.nil_subperm, fun nonempty => absurd rfl nonempty⟩ (.inl rfl)
  cases route : isEthtoolGet op family with
  | true =>
      cases found : ethtoolSchema op family with
      | error answer =>
          rw [Request.message, if_pos route, found] at message
          cases message
      | ok schema =>
          rw [message_ethtool route found] at message
          rw [rejected_ethtool_iff route found] at accepted
          have sent := Attempt.message_eq_some.mp message
          rw [honoured_ethtool_iff route found accepted sent, Selective]
          simp only [empty, false_or, route, found, Except.ok.injEq, forall_eq', true_imp_iff]
          constructor
          · rintro ⟨⟨header, single, fields⟩, -⟩
            exact ⟨fields, single, header⟩
          · rintro ⟨fields, single, header⟩
            refine ⟨⟨header, single, fields⟩, ?_⟩
            intro _
            obtain ⟨arg, rfl⟩ := List.length_eq_one_iff.mp single
            obtain ⟨field, selects, -⟩ := fields arg (List.mem_singleton_self arg)
            rcases ethtoolRequest_sends op family schema [arg] seq with
              ⟨-, never⟩ | ⟨-, cmd, version, sent'⟩
            · exact absurd sent (never m)
            · obtain rfl := Attempt.send.inj (sent'.symm.trans sent)
              rw [argField_ethtool route found] at selects
              rw [ethtoolMsg, msgFlags_msg, dumpMode_eq schema]
              cases selected : ethtoolSelector schema [arg] with
              | none =>
                  rw [selected] at selects
                  cases selects
              | some field' =>
                  show nlmFRequest &&& nlmFDump = 0
                  decide
  | false =>
      rw [Request.message, if_neg (by simp [route])] at message
      have sent := Attempt.message_eq_some.mp message
      cases found : genericAttrSet op family with
      | none =>
          rw [genericRequest, if_neg (by simpa using empty), found] at sent
          cases sent
      | some attrsSet =>
          rw [rejected_generic_iff route empty found] at accepted
          rcases genericRequest_sends op family seq empty found with
            ⟨refused, -⟩ | ⟨-, cmd, version, sent'⟩
          · exact absurd refused accepted
          · obtain rfl := Attempt.send.inj (sent'.symm.trans sent)
            rw [honoured_generic_iff route found accepted (msgAttrs_msg _ _ _), Selective]
            have flags : nlmFRequest &&& nlmFDump = 0 := by decide
            simp only [empty, false_or, route, msgFlags_msg, flags, Bool.false_eq_true,
              false_imp_iff, implies_true, and_true]

/-- **Every argument has an effect on what is sent, or nothing is sent, exactly when** the
arguments are rejected, there are none, or they are selective. -/
theorem honoursArgs_iff (op : Operation) (family : Family) (args : InvokeArgs) :
    HonoursArgs op family args ↔ Rejected op family args ∨ Selective op family args := by
  by_cases rejected : Rejected op family args
  · refine iff_of_true ?_ (.inl rejected)
    intro seq m message
    rw [(message_eq_none_iff op family args seq).mpr rejected] at message
    cases message
  · rw [or_iff_right rejected]
    constructor
    · intro honours
      obtain ⟨m, message⟩ := Option.ne_none_iff_exists'.mp
        (mt (message_eq_none_iff op family args 0).mp rejected)
      exact (honoured_iff_selective message).mp (honours 0 m message)
    · intro selective seq m message
      exact (honoured_iff_selective message).mpr selective

/-- A mistyped key selects nothing, and the request that is sent is a dump. -/
theorem mistyped_dumps :
    ¬HonoursArgs linkinfoGet ethtoolFamily [(lit "if-name", lit "eth0")] ∧
      argField linkinfoGet ethtoolFamily (lit "if-name", lit "eth0") = none ∧
      ∃ m, (Request.invoke linkinfoGet ethtoolFamily [(lit "if-name", lit "eth0")]).message 1 =
          some m ∧ msgFlags m &&& nlmFDump = nlmFDump := by
  obtain ⟨m, message, flags⟩ : ∃ m, (Request.invoke linkinfoGet ethtoolFamily
      [(lit "if-name", lit "eth0")]).message 1 = some m ∧ msgFlags m &&& nlmFDump = nlmFDump :=
    ⟨_, rfl, by decide +kernel⟩
  refine ⟨?_, by decide +kernel, m, message, flags⟩
  intro honours
  have cleared := (honours 1 m message).2 (List.cons_ne_nil _ _)
  rw [flags] at cleared
  exact absurd cleared (by decide)

end Ykern.Genl
