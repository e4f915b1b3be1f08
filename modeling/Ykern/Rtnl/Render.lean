import Ykern.Rtnl.Tables

/-!
# Rendering replies of the route namespace

A reply has a fixed header, the fields of which are shown one on a line
(`renderMsgHeader`), and attributes, each of which is shown as its table tells
(`renderAttrValue`). Four or sixteen bytes are taken for an address and shown the way
`inet_ntop` does, unless the name of the attribute is that of a link layer address.
-/

set_option autoImplicit false

namespace Ykern.Rtnl

open Genl Netlink

/-- The unsigned number whose bytes, low byte first, are given. -/
def uintOf (bs : Bytes) : Nat := bs.foldr (fun low high => low.toNat + 256 * high) 0

/-! ## Addresses -/

/-- `inet_ntop` for `AF_INET`. -/
def inetNtop4 (p : Bytes) : CStr := (lit ".").intercalate (p.map fun b => decimal b.toNat)

/-- The eight groups of an IPv6 address. -/
def ipv6Groups : Bytes → List Nat
  | high :: low :: rest => (256 * high.toNat + low.toNat) :: ipv6Groups rest
  | _ => []

/-- A run of groups that are zero: its first group and its length. -/
structure ZeroRun where
  base : Nat
  len : Nat
  deriving DecidableEq

/-- The longer of two runs, the first of equal ones. -/
def ZeroRun.longer (best : Option ZeroRun) (run : ZeroRun) : Option ZeroRun :=
  match best with
  | none => some run
  | some b => if b.len < run.len then some run else some b

/-- The first longest run of groups that are zero, with the run that is being read. -/
def longestRun (best cur : Option ZeroRun) (i : Nat) : List Nat → Option ZeroRun
  | [] => match cur with
    | some run => ZeroRun.longer best run
    | none => best
  | g :: groups =>
      match decide (g = 0), cur with
      | true, none => longestRun best (some ⟨i, 1⟩) (i + 1) groups
      | true, some run => longestRun best (some { run with len := run.len + 1 }) (i + 1) groups
      | false, some run => longestRun (ZeroRun.longer best run) none (i + 1) groups
      | false, none => longestRun best none (i + 1) groups

/-- The run `inet_ntop` leaves out, if it has two groups. -/
def omittedRun (groups : List Nat) : Option ZeroRun :=
  (longestRun none none 0 groups).filter fun run => 2 ≤ run.len

/-- The groups from `i` on. An IPv4 address behind the run ends the loop. -/
def ipv6Text (p : Bytes) (groups : List Nat) (run : Option ZeroRun) (i : Nat) : List Nat → CStr
  | [] => []
  | g :: rest =>
      match run with
      | some r =>
          if r.base ≤ i ∧ i < r.base + r.len then
            (if i = r.base then lit ":" else []) ++ ipv6Text p groups run (i + 1) rest
          else
            (if i = 0 then [] else lit ":") ++
              if i = 6 ∧ r.base = 0 ∧ (r.len = 6 ∨ r.len = 5 ∧ groups[5]? = some 0xffff) then
                inetNtop4 (p.drop 12)
              else hex g ++ ipv6Text p groups run (i + 1) rest
      | none => (if i = 0 then [] else lit ":") ++ hex g ++ ipv6Text p groups run (i + 1) rest

/-- `inet_ntop` for `AF_INET6`. -/
def inetNtop6 (p : Bytes) : CStr :=
  let groups := ipv6Groups p
  let run := omittedRun groups
  ipv6Text p groups run 0 groups ++
    if run.any fun r => r.base + r.len == 8 then lit ":" else []

/-! ## Values -/

/-- A number of bytes, and the first sixteen. -/
def renderBytes (p : Bytes) : Bytes :=
  lit "(" ++ decimal p.length ++ lit " bytes)" ++
    (p.take 16).flatMap fun b => lit " " ++ hexField 2 b.toNat

/-- `render_mac`. -/
def renderMac (p : Bytes) : Bytes :=
  if p.length ≠ 6 then renderBytes p
  else (lit ":").intercalate (p.map fun b => hexField 2 b.toNat)

/-- `render_ip`. The buffer holds every address. -/
def renderIp (p : Bytes) : Bytes :=
  if p.length = 4 then inetNtop4 p
  else if p.length = 16 then inetNtop6 p
  else renderBytes p

/-- The names of attributes that hold link layer addresses. -/
def macNames : List CStr := [lit "ADDRESS", lit "BROADCAST", lit "LLADDR", lit "PERM_ADDRESS"]

/-- `render_attr_value`, on the payload. -/
def renderAttrValue (attrMeta : Option RtnlAttr) (p : Bytes) : Bytes :=
  match (attrMeta.map (·.kind)).getD .bin with
  | .flag => lit "(flag)"
  | .u8 => decimal (if p = [] then 0 else uintOf (p.take 1))
  | .u16 => decimal (if 2 ≤ p.length then uintOf (p.take 2) else 0)
  | .u32 => decimal (if 4 ≤ p.length then uintOf (p.take 4) else 0)
  | .s32 => decimalInt (if 4 ≤ p.length then toInt (uintOf (p.take 4)) else 0)
  | .u64 => decimal (if 8 ≤ p.length then uintOf (p.take 8) else 0)
  | .str =>
      let real := if p.getLast? = some 0 then p.dropLast else p
      lit "\"" ++ cString real ++ lit "\""
  | .bin =>
      if attrMeta.any fun a => a.name ∈ macNames then renderMac p
      else if p.length = 4 ∨ p.length = 16 then renderIp p
      else renderBytes p
  | .nest => lit "(nested, " ++ decimal p.length ++ lit " bytes)"

/-- The line of an attribute. -/
def renderRtnlAttr (attrs : List RtnlAttr) (na : Bytes) : Bytes :=
  let t := attrType na
  let attrMeta := rtnlAttrLookup attrs t
  lit "  " ++ (attrMeta.map (·.name)).getD (lit "?") ++ lit " = " ++
    (if attrMeta.isNone then lit "(attr " ++ decimal t.toNat ++ lit ") " else []) ++
    renderAttrValue attrMeta (payload na) ++ lit "\n"

/-! ## Headers -/

/-- How a field of a header is printed. -/
inductive FieldFormat where
  | unsigned
  | signed
  | hex (width : Nat)
  deriving DecidableEq

/-- A field of a header: its label, its place and its format. -/
structure HeaderField where
  label : CStr
  offset : Nat
  size : Nat
  format : FieldFormat
  deriving DecidableEq

/-- A number as it is printed. -/
def FieldFormat.print : FieldFormat → Nat → Bytes
  | .unsigned, v => decimal v
  | .signed, v => decimalInt (toInt v)
  | .hex width, v => lit "0x" ++ hexField width v

/-- The line of a field. -/
def HeaderField.line (mem : Mem) (hdr : Nat) (f : HeaderField) : Bytes :=
  lit "    " ++ f.label ++ lit " : " ++
    f.format.print (uintOf (mem.slice (hdr + f.offset) f.size)) ++ lit "\n"

/-- `ifinfomsg`. -/
def ifinfomsgFields : List HeaderField :=
  [⟨lit "ifi_family", 0, 1, .unsigned⟩, ⟨lit "ifi_type  ", 2, 2, .unsigned⟩,
    ⟨lit "ifi_index ", 4, 4, .signed⟩, ⟨lit "ifi_flags ", 8, 4, .hex 8⟩,
    ⟨lit "ifi_change", 12, 4, .hex 8⟩]

/-- `ifaddrmsg`. -/
def ifaddrmsgFields : List HeaderField :=
  [⟨lit "ifa_family   ", 0, 1, .unsigned⟩, ⟨lit "ifa_prefixlen", 1, 1, .unsigned⟩,
    ⟨lit "ifa_flags    ", 2, 1, .hex 2⟩, ⟨lit "ifa_scope    ", 3, 1, .unsigned⟩,
    ⟨lit "ifa_index    ", 4, 4, .unsigned⟩]

/-- `rtmsg`. -/
def rtmsgFields : List HeaderField :=
  [⟨lit "rtm_family  ", 0, 1, .unsigned⟩, ⟨lit "rtm_dst_len ", 1, 1, .unsigned⟩,
    ⟨lit "rtm_src_len ", 2, 1, .unsigned⟩, ⟨lit "rtm_tos     ", 3, 1, .unsigned⟩,
    ⟨lit "rtm_table   ", 4, 1, .unsigned⟩, ⟨lit "rtm_protocol", 5, 1, .unsigned⟩,
    ⟨lit "rtm_scope   ", 6, 1, .unsigned⟩, ⟨lit "rtm_type    ", 7, 1, .unsigned⟩,
    ⟨lit "rtm_flags   ", 8, 4, .hex 8⟩]

/-- `ndmsg`. -/
def ndmsgFields : List HeaderField :=
  [⟨lit "ndm_family ", 0, 1, .unsigned⟩, ⟨lit "ndm_ifindex", 4, 4, .signed⟩,
    ⟨lit "ndm_state  ", 8, 2, .hex 4⟩, ⟨lit "ndm_flags  ", 10, 1, .hex 2⟩,
    ⟨lit "ndm_type   ", 11, 1, .unsigned⟩]

/-- The struct and the fields of the replies to a request. -/
def headerLayout (opMeta : RtnlOpMeta) : Option (CStr × List HeaderField) :=
  if opMeta.msgType ∈ [rtmGetlink, rtmNewlink, rtmDellink] then
    some (lit "ifinfomsg", ifinfomsgFields)
  else if opMeta.msgType ∈ [rtmGetaddr, rtmNewaddr, rtmDeladdr] then
    some (lit "ifaddrmsg", ifaddrmsgFields)
  else if opMeta.msgType ∈ [rtmGetroute, rtmNewroute, rtmDelroute] then
    some (lit "rtmsg", rtmsgFields)
  else if opMeta.msgType ∈ [rtmGetneigh, rtmNewneigh, rtmDelneigh] then
    some (lit "ndmsg", ndmsgFields)
  else none

/-- `render_msg_header`. -/
def renderMsgHeader (opMeta : RtnlOpMeta) (mem : Mem) (hdr : Nat) : Bytes :=
  match headerLayout opMeta with
  | none => []
  | some (struct, fields) =>
      lit "  [response header — " ++ struct ++ lit ", read-only]\n" ++
        fields.flatMap (HeaderField.line mem hdr)

/-! ## What a header shows -/

theorem uintOf_append (bs : Bytes) (b : UInt8) :
    uintOf (bs ++ [b]) = uintOf bs + 256 ^ bs.length * b.toNat := by
  induction bs with
  | nil => simp [uintOf]
  | cons c bs ih =>
      rw [uintOf] at ih ⊢
      rw [List.cons_append, List.foldr_cons, ih, List.length_cons, pow_succ]
      show _ = c.toNat + 256 * uintOf bs + _
      rw [uintOf]
      ring

/-- Unsigned formats tell numbers apart. -/
theorem FieldFormat.print_injective {format : FieldFormat} (unsigned : format ≠ .signed)
    {v w : Nat} (same : format.print v = format.print w) : v = w := by
  cases format with
  | unsigned => exact decimal_injective same
  | signed => exact absurd rfl unsigned
  | hex width => exact padLeft_hex_injective (List.append_cancel_left same)

/-- The fields of a header lie in it, and the last one ends with it and is unsigned. -/
theorem headerLayout_rtnlOps (op : RtnlOp) : ∃ struct init last,
    headerLayout (rtnlOps op) = some (struct, init ++ [last]) ∧
      (∀ f ∈ init, f.offset + f.size < (rtnlOps op).hdrSkip) ∧
      last.offset + last.size = (rtnlOps op).hdrSkip ∧ 0 < last.size ∧ last.format ≠ .signed := by
  cases op with
  | getLink =>
      exact ⟨_, ifinfomsgFields.dropLast, ⟨lit "ifi_change", 12, 4, .hex 8⟩, rfl, by decide, rfl,
        by decide, by decide⟩
  | getAddr =>
      exact ⟨_, ifaddrmsgFields.dropLast, ⟨lit "ifa_index    ", 4, 4, .unsigned⟩, rfl, by decide,
        rfl, by decide, by decide⟩
  | getRoute =>
      exact ⟨_, rtmsgFields.dropLast, ⟨lit "rtm_flags   ", 8, 4, .hex 8⟩, rfl, by decide, rfl,
        by decide, by decide⟩
  | getNeigh =>
      exact ⟨_, ndmsgFields.dropLast, ⟨lit "ndm_type   ", 11, 1, .unsigned⟩, rfl, by decide, rfl,
        by decide, by decide⟩

theorem line_congr {mem mem' : Mem} {hdr hdr' : Nat} {f : HeaderField}
    (same : mem.slice (hdr + f.offset) f.size = mem'.slice (hdr' + f.offset) f.size) :
    f.line mem hdr = f.line mem' hdr' := by
  rw [HeaderField.line, HeaderField.line, same]

/-- **A header is rendered from its own bytes.** -/
theorem renderMsgHeader_congr {op : RtnlOp} {mem mem' : Mem} {hdr hdr' : Nat}
    (same : mem.slice hdr (rtnlOps op).hdrSkip = mem'.slice hdr' (rtnlOps op).hdrSkip) :
    renderMsgHeader (rtnlOps op) mem hdr = renderMsgHeader (rtnlOps op) mem' hdr' := by
  obtain ⟨struct, init, last, layout, within, ends, -, -⟩ := headerLayout_rtnlOps op
  simp only [renderMsgHeader, layout]
  congr 1
  refine List.flatMap_congr ?_
  intro f member
  apply line_congr
  apply Mem.slice_within same
  rcases List.mem_append.mp member with first | isLast
  · exact le_of_lt (within f first)
  · rw [List.mem_singleton.mp isLast, ends]

/-- **The last byte of a header is seen** in what is rendered for it. -/
theorem renderMsgHeader_last {op : RtnlOp} {mem mem' : Mem} {hdr : Nat}
    (before : mem.slice hdr ((rtnlOps op).hdrSkip - 1) = mem'.slice hdr ((rtnlOps op).hdrSkip - 1))
    (differ : mem (hdr + ((rtnlOps op).hdrSkip - 1)) ≠ mem' (hdr + ((rtnlOps op).hdrSkip - 1))) :
    renderMsgHeader (rtnlOps op) mem hdr ≠ renderMsgHeader (rtnlOps op) mem' hdr := by
  obtain ⟨struct, init, last, layout, within, ends, size, unsigned⟩ := headerLayout_rtnlOps op
  intro same
  simp only [renderMsgHeader, layout, List.flatMap_append, List.flatMap_singleton] at same
  have others : init.flatMap (HeaderField.line mem hdr) = init.flatMap (HeaderField.line mem' hdr) := by
    refine List.flatMap_congr ?_
    intro f member
    have inside := within f member
    exact line_congr (Mem.slice_within before (by omega))
  rw [others] at same
  have line : last.line mem hdr = last.line mem' hdr :=
    List.append_cancel_left (List.append_cancel_left same)
  -- Only the top byte of the last field differs.
  obtain ⟨n, length⟩ : ∃ n, last.size = n + 1 := ⟨last.size - 1, by omega⟩
  have place : hdr + ((rtnlOps op).hdrSkip - 1) = hdr + last.offset + n := by omega
  have low : mem.slice (hdr + last.offset) n = mem'.slice (hdr + last.offset) n :=
    Mem.slice_within before (by omega)
  have value := FieldFormat.print_injective unsigned (List.append_cancel_left
    (List.append_cancel_right line))
  rw [length, Mem.slice_add, Mem.slice_add, low, Mem.slice_succ, Mem.slice_succ, Mem.slice_zero,
    Mem.slice_zero, uintOf_append, uintOf_append, Mem.length_slice, Nat.add_left_cancel_iff] at value
  rw [place] at differ
  exact differ (UInt8.toNat_inj.mp (Nat.eq_of_mul_eq_mul_left (by positivity) value))

end Ykern.Rtnl
