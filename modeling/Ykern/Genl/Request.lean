import Ykern.Genl.Nodes
import Ykern.Netlink.Wire

/-!
# Building requests

An invocation of an operation builds one request in a zeroed buffer: the message
header, the generic netlink header, and attributes, each of which is appended by the
same steps after a check of the room that is left (`abAttr`).

The generic invocation appends one attribute for each argument (`genericRequest`).
The ethtool invocation appends one nest, with the name or the index of the
interface (`ethtoolRequest`). The enumeration of families sends a fixed message
(`dumpRequest`).
-/

set_option autoImplicit false

namespace Ykern.Genl

open Overlay Netlink

/-- The arguments of an invocation, as pairs of key and value. -/
abbrev InvokeArgs := List (CStr × CStr)

/-- What an invocation does up to the send: it answers a text or an error without
sending anything, or it sends a message. -/
inductive Attempt where
  | text (answer : CStr)
  | error (e : Error)
  | send (message : Bytes)
  deriving DecidableEq

/-- `%s` of a pointer that may be `NULL`. -/
def orNull (s : Option CStr) : CStr := s.getD (lit "(null)")

/-! ## Names -/

/-- The suffixes `strip_op_suffix` knows, longest first. -/
def opSuffixes : List CStr :=
  [lit "_GET_STATUS", lit "_GET_CFG", lit "_GET_ID", lit "_GET", lit "_SET", lit "_NEW",
    lit "_DEL", lit "_ADD", lit "_NTF", lit "_ACT"]

/-- `strip_op_suffix` with this table, and the size of the output buffer. -/
def stripSuffix (suffixes : List CStr) (opName : Option CStr) (outSize : Nat) : Option CStr :=
  opName.bind fun name =>
    (suffixes.find? fun s => s.length < name.length && s.isSuffixOf name).bind fun s =>
      let keep := name.length - s.length
      if outSize < keep + 1 then none else some (name.take keep)

/-- `strip_op_suffix`, with the size of the output buffer. -/
def stripOpSuffix (opName : Option CStr) (outSize : Nat) : Option CStr :=
  stripSuffix opSuffixes opName outSize

/-- The prefixes `strip_op_prefix_get` knows. -/
def opPrefixes : List CStr := [lit "GET_", lit "SET_", lit "NEW_", lit "DEL_"]

/-- `strip_op_prefix_get`, with the size of the output buffer. -/
def stripOpPrefixGet (opName : Option CStr) (outSize : Nat) : Option CStr :=
  opName.bind fun name =>
    (opPrefixes.find? fun s => s.isPrefixOf name && s.length < name.length).bind fun s =>
      let keep := name.length - s.length
      if outSize < keep + 1 then none else some (name.drop s.length)

/-- `op_name_ends_in_get`. -/
def opNameEndsInGet (opName : Option CStr) : Bool :=
  opName.any fun name => [lit "_GET", lit "_GET_CFG", lit "_GET_STATUS"].any (·.isSuffixOf name)

/-- The attribute set `invoke_generic_genl` uses: the flat one of the family, or one
named after the operation. -/
def genericAttrSet (op : Operation) (family : Family) : Option AttrSetOverlay :=
  (findAttrSet family.overlay (lit "ATTRS")).orElse fun _ =>
    ((stripOpSuffix op.overlayName 128).bind (findAttrSet family.overlay)).orElse fun _ =>
      (stripOpPrefixGet op.overlayName 128).bind (findAttrSet family.overlay)

/-! ## The attribute buffer -/

/-- `attr_buf`. -/
structure AttrBuf where
  data : Mem
  off : Nat
  cap : Nat

/-- `ab_reserve`. -/
def AttrBuf.reserve (b : AttrBuf) (need : Nat) : Bool := b.off + need ≤ b.cap

/-- What `ab_string` and `ab_u32` have in common: append an attribute. -/
def abAttr (b : AttrBuf) (type : UInt16) (value : Bytes) : Option AttrBuf :=
  let total := 4 + value.length
  if b.reserve (align4 total) then
    let header := b.data.place (bytes16 (UInt16.ofNat total) ++ bytes16 type) b.off
    some { b with data := header.place value (b.off + 4), off := b.off + align4 total }
  else none

/-- `ab_string`. -/
def abString (b : AttrBuf) (type : UInt16) (s : CStr) : Option AttrBuf := abAttr b type (s ++ [0])

/-- `ab_u32`. -/
def abU32 (b : AttrBuf) (type : UInt16) (v : UInt32) : Option AttrBuf := abAttr b type (bytes32 v)

/-- `ab_begin_nested`: the offset of the nest and the buffer. -/
def abBeginNested (b : AttrBuf) (type : UInt16) : Option (Nat × AttrBuf) :=
  if b.reserve 4 then
    some (b.off, { b with
      data := b.data.place (bytes16 0 ++ bytes16 (type ||| nlaFNested)) b.off, off := b.off + 4 })
  else none

/-- `ab_end_nested`. -/
def abEndNested (b : AttrBuf) (outerOff : Nat) : AttrBuf :=
  { b with data := b.data.place (bytes16 (UInt16.ofNat (b.off - outerOff))) outerOff }

/-- The headers of a request in a zeroed buffer, and the attributes to be appended
to them. The length is filled in when all are there. -/
def requestBuf (op : Operation) (family : Family) (dumpMode : Bool) (seq : UInt32) (cap : Nat) :
    AttrBuf :=
  let flags := if dumpMode then nlmFRequest ||| nlmFDump else nlmFRequest
  let version := if family.version ≠ 0 then family.version.toUInt8 else 1
  { data := Mem.place (fun _ => 0) (bytes16 family.id ++ bytes16 flags ++ bytes32 seq ++ bytes32 0 ++
      genlHeader op.cmdId.toUInt8 version) 4
    off := 20
    cap := cap }

/-- The message in the buffer, with its length. -/
def AttrBuf.message (b : AttrBuf) : Bytes :=
  (b.data.place (bytes32 (UInt32.ofNat b.off)) 0).slice 0 b.off

/-! ## The generic request -/

/-- `looks_like_uint`. -/
def looksLikeUint (s : CStr) : Bool := s ≠ [] && s.all isDigit

/-- Append the attribute of one argument. -/
def packValue (b : AttrBuf) (type : UInt16) (val : CStr) : Except Error AttrBuf :=
  let v := strtoul val
  if looksLikeUint val ∧ v.rest = [] ∧ v.value ≤ 2 ^ 32 - 1 then
    match abU32 b type (UInt32.ofNat v.value) with
    | none => .error ["generic invoke: buffer overflow on u32 attr"]
    | some b => .ok b
  else
    match abString b type val with
    | none => .error ["generic invoke: buffer overflow on string attr"]
    | some b => .ok b

/-- The loop over the arguments of `invoke_generic_genl`, and the send. -/
def packArgs (op : Operation) (family : Family) (attrsSet : AttrSetOverlay) (b : AttrBuf) :
    InvokeArgs → Attempt
  | [] => .send b.message
  | (key, val) :: args =>
      match attrSetLookupId attrsSet key with
      | none => .text (family.name ++ lit "/" ++ orNull op.overlayName ++
          lit ": unknown attribute '" ++ key ++ lit "' in this family's ATTRS set")
      | some attrId =>
          match packValue b attrId.toUInt16 val with
          | .error e => .error e
          | .ok b => packArgs op family attrsSet b args

/-- `invoke_generic_genl` up to the send. Without arguments it asks for a dump. -/
def genericRequest (op : Operation) (family : Family) (args : InvokeArgs) (seq : UInt32) :
    Attempt :=
  let b := requestBuf op family args.isEmpty seq 1024
  if args.isEmpty then .send b.message
  else
    match genericAttrSet op family with
    | none => .text (family.name ++ lit "/" ++ op.overlayName.getD (lit "?") ++
        lit (": --arg used but family has no ATTRS metadata; " ++
          "rerun `make regen-metadata-all` or omit --arg for a DUMP."))
    | some attrsSet => packArgs op family attrsSet b args

/-! ## The ethtool request -/

/-- What `invoke_ethtool_get` finds in the overlay before it builds a request. -/
structure EthtoolSchema where
  setName : CStr
  responseSet : AttrSetOverlay
  hdrAttrId : UInt32
  devNameId : UInt32
  devIndexId : UInt32

/-- The lookups of `invoke_ethtool_get`, or what it answers without them. -/
def ethtoolSchema (op : Operation) (family : Family) : Except (Except Error CStr) EthtoolSchema :=
  match family.overlay with
  | none => .error (.error ["ethtool *_GET: no overlay loaded — run `make regen-metadata-ethtool`"])
  | some overlay =>
      match stripOpSuffix op.overlayName 64 with
      | none => .error (.ok (op.overlayName.getD (lit "?") ++
          lit (": cannot derive an attribute set from the op name (expected " ++
            "*_GET, *_GET_CFG, or *_GET_STATUS)")))
      | some setName =>
          match findAttrSet (some overlay) setName with
          | none => .error (.ok (orNull op.overlayName ++ lit ": derived attribute set '" ++
              setName ++ lit ("' not present in overlay; either the " ++
                "kernel header doesn't expose it or the overlay needs regeneration")))
          | some responseSet =>
              match findAttrSet (some overlay) (lit "HEADER") with
              | none =>
                  .error (.error ["ethtool *_GET: HEADER attribute set missing from overlay"])
              | some headerSet =>
                  match attrSetLookupId responseSet (lit "HEADER") with
                  | none => .error (.ok (orNull op.overlayName ++ lit ": response set '" ++ setName ++
                      lit ("' has no HEADER attribute — this op may not be " ++
                        "a plain *_GET shape; needs hand-curated invoke")))
                  | some hdrAttrId =>
                      match attrSetLookupId headerSet (lit "DEV_NAME"),
                        attrSetLookupId headerSet (lit "DEV_INDEX") with
                      | some devNameId, some devIndexId =>
                          .ok ⟨setName, responseSet, hdrAttrId, devNameId, devIndexId⟩
                      | _, _ => .error (.error
                          ["ethtool *_GET: HEADER set missing DEV_NAME / DEV_INDEX"])

/-- `ykern_ycore_invoke_args_lookup`. -/
def argsLookup (args : InvokeArgs) (key : CStr) : Option CStr :=
  (args.find? fun a => a.1 == key).map (·.2)

/-- Neither an interface name nor an index asks for a dump. -/
def ethtoolDumpMode (args : InvokeArgs) : Bool :=
  (argsLookup args (lit "ifname")).isNone && (argsLookup args (lit "ifindex")).isNone

/-- `invoke_ethtool_get` from the request on, up to the send. -/
def ethtoolRequest (op : Operation) (family : Family) (schema : EthtoolSchema) (args : InvokeArgs)
    (seq : UInt32) : Attempt :=
  let b := requestBuf op family (ethtoolDumpMode args) seq 256
  match abBeginNested b schema.hdrAttrId.toUInt16 with
  | none => .error ["ethtool *_GET: buffer overflow on HEADER"]
  | some (hdrOff, b) =>
      match argsLookup args (lit "ifname"), argsLookup args (lit "ifindex") with
      | some ifname, _ =>
          match abString b schema.devNameId.toUInt16 ifname with
          | none => .error ["ethtool *_GET: buffer overflow on DEV_NAME"]
          | some b => .send (abEndNested b hdrOff).message
      | none, some ifindex =>
          let v := strtoul ifindex
          if v.rest ≠ [] ∨ 2 ^ 32 - 1 < v.value then
            .text (orNull op.overlayName ++ lit ": ifindex must be a u32")
          else
            match abU32 b schema.devIndexId.toUInt16 (UInt32.ofNat v.value) with
            | none => .error ["ethtool *_GET: buffer overflow on DEV_INDEX"]
            | some b => .send (abEndNested b hdrOff).message
      | none, none => .send (abEndNested b hdrOff).message

/-- The message of `send_dump_request`. -/
def dumpRequest (seq : UInt32) : Bytes :=
  msg 16 (nlmFRequest ||| nlmFDump) seq (genlHeader 3 1)

end Ykern.Genl
