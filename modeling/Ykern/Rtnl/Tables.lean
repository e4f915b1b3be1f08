import Ykern.Genl.FamilyMessage
import Ykern.Genl.Render

/-!
# The operations of the route namespace

Four operations dump links, addresses, routes and neighbours. Each has the type of its
request, the family it asks for, the size of the fixed header of a reply, and a table with
the names and the kinds of the attributes behind it.
-/

set_option autoImplicit false

namespace Ykern.Rtnl

/-- `rtnl_kind`. -/
inductive RtnlKind where
  | u8
  | u16
  | u32
  | u64
  | s32
  | str
  | bin
  | nest
  | flag
  deriving DecidableEq

/-- `rtnl_attr`. -/
structure RtnlAttr where
  id : UInt16
  name : CStr
  kind : RtnlKind
  deriving DecidableEq

/-- `IFLA_attrs`. -/
def iflaAttrs : List RtnlAttr :=
  [⟨1, lit "ADDRESS", .bin⟩, ⟨2, lit "BROADCAST", .bin⟩, ⟨3, lit "IFNAME", .str⟩,
    ⟨4, lit "MTU", .u32⟩, ⟨5, lit "LINK", .u32⟩, ⟨6, lit "QDISC", .str⟩, ⟨7, lit "STATS", .bin⟩,
    ⟨10, lit "MASTER", .u32⟩, ⟨13, lit "TXQLEN", .u32⟩, ⟨16, lit "OPERSTATE", .u8⟩,
    ⟨17, lit "LINKMODE", .u8⟩, ⟨18, lit "LINKINFO", .nest⟩, ⟨19, lit "NET_NS_PID", .u32⟩,
    ⟨20, lit "IFALIAS", .str⟩, ⟨21, lit "NUM_VF", .u32⟩, ⟨23, lit "STATS64", .bin⟩,
    ⟨26, lit "AF_SPEC", .nest⟩, ⟨27, lit "GROUP", .u32⟩, ⟨30, lit "PROMISCUITY", .u32⟩,
    ⟨31, lit "NUM_TX_QUEUES", .u32⟩, ⟨32, lit "NUM_RX_QUEUES", .u32⟩, ⟨33, lit "CARRIER", .u8⟩,
    ⟨34, lit "PHYS_PORT_ID", .bin⟩, ⟨35, lit "CARRIER_CHANGES", .u32⟩,
    ⟨36, lit "PHYS_SWITCH_ID", .bin⟩, ⟨37, lit "LINK_NETNSID", .s32⟩,
    ⟨38, lit "PHYS_PORT_NAME", .str⟩, ⟨39, lit "PROTO_DOWN", .u8⟩, ⟨40, lit "GSO_MAX_SEGS", .u32⟩,
    ⟨41, lit "GSO_MAX_SIZE", .u32⟩, ⟨42, lit "PAD", .bin⟩, ⟨43, lit "XDP", .nest⟩,
    ⟨44, lit "EVENT", .u32⟩, ⟨45, lit "NEW_NETNSID", .s32⟩, ⟨49, lit "NEW_IFINDEX", .s32⟩,
    ⟨50, lit "MIN_MTU", .u32⟩, ⟨51, lit "MAX_MTU", .u32⟩, ⟨54, lit "PERM_ADDRESS", .bin⟩]

/-- `IFA_attrs`. -/
def ifaAttrs : List RtnlAttr :=
  [⟨1, lit "ADDRESS", .bin⟩, ⟨2, lit "LOCAL", .bin⟩, ⟨3, lit "LABEL", .str⟩,
    ⟨4, lit "BROADCAST", .bin⟩, ⟨5, lit "ANYCAST", .bin⟩, ⟨6, lit "CACHEINFO", .bin⟩,
    ⟨7, lit "MULTICAST", .bin⟩, ⟨8, lit "FLAGS", .u32⟩, ⟨9, lit "RT_PRIORITY", .u32⟩,
    ⟨10, lit "TARGET_NETNSID", .s32⟩]

/-- `RTA_attrs`. -/
def rtaAttrs : List RtnlAttr :=
  [⟨1, lit "DST", .bin⟩, ⟨2, lit "SRC", .bin⟩, ⟨3, lit "IIF", .u32⟩, ⟨4, lit "OIF", .u32⟩,
    ⟨5, lit "GATEWAY", .bin⟩, ⟨6, lit "PRIORITY", .u32⟩, ⟨7, lit "PREFSRC", .bin⟩,
    ⟨8, lit "METRICS", .nest⟩, ⟨9, lit "MULTIPATH", .nest⟩, ⟨11, lit "FLOW", .u32⟩,
    ⟨12, lit "CACHEINFO", .bin⟩, ⟨15, lit "TABLE", .u32⟩, ⟨16, lit "MARK", .u32⟩,
    ⟨17, lit "MFC_STATS", .bin⟩, ⟨18, lit "VIA", .bin⟩, ⟨19, lit "NEWDST", .bin⟩,
    ⟨20, lit "PREF", .u8⟩, ⟨21, lit "ENCAP_TYPE", .u16⟩, ⟨22, lit "ENCAP", .nest⟩,
    ⟨23, lit "EXPIRES", .u32⟩, ⟨24, lit "PAD", .bin⟩, ⟨25, lit "UID", .u32⟩,
    ⟨26, lit "TTL_PROPAGATE", .u8⟩]

/-- `NDA_attrs`. -/
def ndaAttrs : List RtnlAttr :=
  [⟨1, lit "DST", .bin⟩, ⟨2, lit "LLADDR", .bin⟩, ⟨3, lit "CACHEINFO", .bin⟩,
    ⟨4, lit "PROBES", .u32⟩, ⟨5, lit "VLAN", .u16⟩, ⟨6, lit "PORT", .u16⟩, ⟨7, lit "VNI", .u32⟩,
    ⟨8, lit "IFINDEX", .u32⟩, ⟨9, lit "MASTER", .u32⟩, ⟨10, lit "LINK_NETNSID", .u32⟩,
    ⟨11, lit "SRC_VNI", .u32⟩]

/-- `rtnl_attr_lookup`. -/
def rtnlAttrLookup (table : List RtnlAttr) (id : UInt16) : Option RtnlAttr :=
  table.find? fun e => e.id == id

/-- `rtnl_op_meta`. -/
structure RtnlOpMeta where
  name : CStr
  shortDesc : CStr
  msgType : UInt16
  defaultFamily : UInt8
  hdrSkip : Nat
  attrs : List RtnlAttr

/-- The operations. -/
inductive RtnlOp where
  | getLink
  | getAddr
  | getRoute
  | getNeigh
  deriving DecidableEq

/-- `AF_UNSPEC` and `AF_INET`. -/
def afUnspec : UInt8 := 0

@[inherit_doc afUnspec]
def afInet : UInt8 := 2

/-- The types of messages about links: `RTM_NEWLINK`, `RTM_DELLINK` and `RTM_GETLINK`. -/
def rtmNewlink : UInt16 := 16

@[inherit_doc rtmNewlink]
def rtmDellink : UInt16 := 17

@[inherit_doc rtmNewlink]
def rtmGetlink : UInt16 := 18

/-- The types of messages about addresses: `RTM_NEWADDR`, `RTM_DELADDR` and `RTM_GETADDR`. -/
def rtmNewaddr : UInt16 := 20

@[inherit_doc rtmNewaddr]
def rtmDeladdr : UInt16 := 21

@[inherit_doc rtmNewaddr]
def rtmGetaddr : UInt16 := 22

/-- The types of messages about routes: `RTM_NEWROUTE`, `RTM_DELROUTE` and `RTM_GETROUTE`. -/
def rtmNewroute : UInt16 := 24

@[inherit_doc rtmNewroute]
def rtmDelroute : UInt16 := 25

@[inherit_doc rtmNewroute]
def rtmGetroute : UInt16 := 26

/-- The types of messages about neighbours: `RTM_NEWNEIGH`, `RTM_DELNEIGH` and
`RTM_GETNEIGH`. -/
def rtmNewneigh : UInt16 := 28

@[inherit_doc rtmNewneigh]
def rtmDelneigh : UInt16 := 29

@[inherit_doc rtmNewneigh]
def rtmGetneigh : UInt16 := 30

/-- `rtnl_ops`, by operation. -/
def rtnlOps : RtnlOp → RtnlOpMeta
  | .getLink =>
      ⟨lit "GETLINK", lit "List network interfaces", rtmGetlink, afUnspec, 16, iflaAttrs⟩
  | .getAddr =>
      ⟨lit "GETADDR", lit "List configured addresses (per interface, all families)", rtmGetaddr,
        afUnspec, 8, ifaAttrs⟩
  | .getRoute =>
      ⟨lit "GETROUTE", lit "List IPv4 routes", rtmGetroute, afInet, 12, rtaAttrs⟩
  | .getNeigh =>
      ⟨lit "GETNEIGH", lit "List neighbour (ARP/NDISC) entries", rtmGetneigh, afUnspec, 12,
        ndaAttrs⟩

/-- The fixed header of a reply ends at a multiple of four. -/
theorem align4_hdrSkip (op : RtnlOp) : align4 (rtnlOps op).hdrSkip = (rtnlOps op).hdrSkip := by
  cases op <;> rfl

end Ykern.Rtnl
