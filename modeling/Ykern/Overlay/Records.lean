import Ykern.Foundation.GrowArray
import Ykern.Foundation.Keyed

/-!
# The per-family overlay and its lookups

An overlay names what the kernel only numbers: the operations of a family, its
multicast groups, and the attributes of its attribute sets. A pointer that may be
`NULL` is an option. Every lookup is a scan for the first entry with the key.

An operation row is generic in what it holds its strings by, because the same
rows are handled by value here and as owned allocations where the merge of two
files frees them.
-/

set_option autoImplicit false

namespace Ykern.Overlay

/-- `ykern_ynetlink_genl_op_overlay`, with its strings held by `σ`. -/
structure OpOverlay (σ : Type) where
  cmdId : UInt32
  name : Option σ
  shortDesc : Option σ
  longDesc : Option σ
  deriving DecidableEq

/-- `ykern_ynetlink_genl_mcast_overlay`. -/
structure McastOverlay where
  name : Option CStr
  shortDesc : Option CStr
  longDesc : Option CStr
  deriving DecidableEq

/-- `ykern_ynetlink_genl_attr_overlay`. -/
structure AttrOverlay where
  attrId : UInt32
  name : Option CStr
  typeHint : Option CStr
  deriving DecidableEq

/-- `ykern_ynetlink_genl_attr_set_overlay`. The loader never stores a set without
a name. -/
structure AttrSetOverlay where
  setName : CStr
  attrs : GrowArray AttrOverlay

/-- `ykern_ynetlink_genl_family_overlay`. -/
structure FamilyOverlay where
  familyName : Option CStr
  shortDesc : Option CStr
  longDesc : Option CStr
  ops : GrowArray (OpOverlay CStr)
  mcast : GrowArray McastOverlay
  attrSets : GrowArray AttrSetOverlay

/-- The overlay `calloc` hands to the loader. -/
def FamilyOverlay.zero : FamilyOverlay :=
  ⟨none, none, none, .empty, .empty, .empty⟩

/-! ## Lookups -/

/-- `ykern_ynetlink_genl_family_overlay_find_attr_set`. -/
def findAttrSet (o : Option FamilyOverlay) (setName : CStr) : Option AttrSetOverlay :=
  o.bind fun o => o.attrSets.items.find? fun set => set.setName == setName

/-- `ykern_ynetlink_genl_attr_set_lookup_name`. -/
def attrSetLookupName (set : Option AttrSetOverlay) (attrId : UInt32) : Option CStr :=
  set.bind fun set => (set.attrs.items.find? fun a => a.attrId == attrId).bind (·.name)

/-- `ykern_ynetlink_genl_attr_set_lookup_id`. -/
def attrSetLookupId (set : AttrSetOverlay) (name : CStr) : Option UInt32 :=
  (set.attrs.items.find? fun a => a.name == some name).map (·.attrId)

/-- `ykern_ynetlink_genl_attr_set_lookup_type`. -/
def attrSetLookupType (set : Option AttrSetOverlay) (attrId : UInt32) : Option CStr :=
  set.bind fun set => (set.attrs.items.find? fun a => a.attrId == attrId).bind (·.typeHint)

/-- `ykern_ynetlink_genl_family_overlay_find_op`. -/
def findOp (o : Option FamilyOverlay) (cmdId : UInt32) : Option (OpOverlay CStr) :=
  o.bind fun o => o.ops.items.find? fun op => op.cmdId == cmdId

/-- `ykern_ynetlink_genl_family_overlay_find_mcast`. -/
def findMcast (o : Option FamilyOverlay) (name : Option CStr) : Option McastOverlay :=
  o.bind fun o => name.bind fun name => o.mcast.items.find? fun g => g.name == some name

end Ykern.Overlay
