import Ykern.Genl.Transport

/-!
# The read operations of ethtool

Three places ask whether the name of an operation ends with that of a read: `op_invoke`, which
passes such an operation to `invoke_ethtool_get`; the tool, which looks at the path of the
operation; and `strip_op_suffix`, which searches a table and cuts the suffix off. The first two
compare at offsets written as numbers, and agree for every name (`readOps_agree`). No suffix of
the table is the end of another, so the order of the table does not matter.
-/

set_option autoImplicit false

namespace Ykern.Genl

/-! ## The program -/

/-- `nlen >= n && strcmp(name + nlen - n, suffix) == 0`. -/
def endsAt (n : Nat) (suffix name : CStr) : Bool :=
  n ≤ name.length && name.drop (name.length - n) == suffix

/-- `strrchr`: the text from the last such character on. -/
def strrchr (s : CStr) (c : UInt8) : Option CStr :=
  if c ∈ s then some (c :: (s.reverse.takeWhile (· != c)).reverse) else none

/-- `is_ethtool_read_op` of the tool. -/
def isEthtoolReadOp (path : Option CStr) : Bool :=
  path.any fun path =>
    path.take 22 == lit "/netlink/genl/ethtool/" &&
      (strrchr path (charByte '/')).any fun slash =>
        let name := slash.drop 1
        endsAt 4 (lit "_GET") name || endsAt 8 (lit "_GET_CFG") name ||
          endsAt 11 (lit "_GET_STATUS") name

/-- The suffixes of read operations. -/
def readSuffixes : List CStr := [lit "_GET", lit "_GET_CFG", lit "_GET_STATUS"]

/-! ## Names and paths -/

/-- An offset that is the length of the suffix. -/
theorem endsAt_length (suffix name : CStr) :
    endsAt suffix.length suffix name = suffix.isSuffixOf name := by
  rw [Bool.eq_iff_iff, endsAt, Bool.and_eq_true, decide_eq_true_eq, beq_iff_eq,
    List.isSuffixOf_iff_suffix, List.suffix_iff_eq_drop]
  constructor
  · rintro ⟨_, same⟩
    exact same.symm
  · intro same
    have length := congrArg List.length same
    rw [List.length_drop] at length
    exact ⟨by omega, same.symm⟩

/-- The offsets of `op_name_ends_in_get` are the lengths of its suffixes. -/
theorem opNameEndsInGet_eq (name : CStr) :
    opNameEndsInGet (some name) = (endsAt 4 (lit "_GET") name || endsAt 8 (lit "_GET_CFG") name ||
      endsAt 11 (lit "_GET_STATUS") name) := by
  have four : (lit "_GET").length = 4 := by decide
  have eight : (lit "_GET_CFG").length = 8 := by decide
  have eleven : (lit "_GET_STATUS").length = 11 := by decide
  rw [← four, ← eight, ← eleven, endsAt_length, endsAt_length, endsAt_length]
  simp [opNameEndsInGet, Bool.or_assoc]

/-- The last segment of a path. -/
theorem strrchr_append {c : UInt8} {name : CStr} (clean : c ∉ name) (before : CStr) :
    strrchr (before ++ c :: name) c = some (c :: name) := by
  have stops : (name.reverse ++ c :: before.reverse).takeWhile (· != c) = name.reverse := by
    rw [List.takeWhile_append_of_pos, List.takeWhile_cons_of_neg (by simp), List.append_nil]
    intro b member
    have other : b ≠ c := by
      rintro rfl
      exact clean (List.mem_reverse.mp member)
    simpa using other
  rw [strrchr, if_pos (by simp), List.reverse_append, List.reverse_cons, List.append_assoc,
    List.singleton_append, stops, List.reverse_reverse]

/-- **The tool looks at the name of the operation.** -/
theorem isEthtoolReadOp_path {name : CStr} (clean : charByte '/' ∉ name) :
    isEthtoolReadOp (some (lit "/netlink/genl/ethtool/" ++ name)) =
      opNameEndsInGet (some name) := by
  have front : lit "/netlink/genl/ethtool/" = lit "/netlink/genl/ethtool" ++ [charByte '/'] := by
    decide
  have offset : (lit "/netlink/genl/ethtool/").length = 22 := by decide
  have taken : (lit "/netlink/genl/ethtool/" ++ name).take 22 = lit "/netlink/genl/ethtool/" := by
    rw [← offset, List.take_left]
  have last : strrchr (lit "/netlink/genl/ethtool/" ++ name) (charByte '/') =
      some (charByte '/' :: name) := by
    rw [front, List.append_assoc, List.singleton_append, strrchr_append clean]
  rw [opNameEndsInGet_eq, isEthtoolReadOp, Option.any_some, taken, last, Option.any_some,
    beq_self_eq_true, Bool.true_and]
  rfl

/-! ## Suffixes -/

/-- No suffix of the table is the end of another. -/
theorem opSuffixes_apart :
    ∀ s ∈ opSuffixes, ∀ t ∈ opSuffixes, s.isSuffixOf t = true → s = t := by
  decide

theorem readSuffixes_subset : ∀ s ∈ readSuffixes, s ∈ opSuffixes := by decide

theorem eq_of_isSuffixOf {s suffix stem : CStr} (member : s ∈ opSuffixes)
    (known : suffix ∈ opSuffixes) (ends : s.isSuffixOf (stem ++ suffix) = true) : s = suffix := by
  rw [List.isSuffixOf_iff_suffix] at ends
  rcases List.suffix_or_suffix_of_suffix ends (List.suffix_append stem suffix) with shorter | longer
  · exact opSuffixes_apart s member suffix known (List.isSuffixOf_iff_suffix.mpr shorter)
  · exact (opSuffixes_apart suffix known s member (List.isSuffixOf_iff_suffix.mpr longer)).symm

/-- **A suffix is cut off whatever the order of the table is**, if the stem and its NUL fit
the buffer. -/
theorem stripSuffix_append {suffixes : List CStr} (perm : suffixes.Perm opSuffixes)
    {stem suffix : CStr} (known : suffix ∈ opSuffixes) (nonempty : stem ≠ []) {outSize : Nat}
    (fits : stem.length + 1 ≤ outSize) :
    stripSuffix suffixes (some (stem ++ suffix)) outSize = some stem := by
  have positive := List.length_pos_of_ne_nil nonempty
  obtain ⟨s, found⟩ : ∃ s, (suffixes.find? fun s =>
      s.length < (stem ++ suffix).length && s.isSuffixOf (stem ++ suffix)) = some s := by
    apply Option.isSome_iff_exists.mp
    rw [List.find?_isSome]
    refine ⟨suffix, perm.mem_iff.mpr known, ?_⟩
    rw [Bool.and_eq_true, decide_eq_true_eq, List.isSuffixOf_iff_suffix, List.length_append]
    exact ⟨by omega, List.suffix_append stem suffix⟩
  have ends : s.isSuffixOf (stem ++ suffix) = true := by
    have matched := List.find?_some found
    rw [Bool.and_eq_true] at matched
    exact matched.2
  obtain rfl := eq_of_isSuffixOf (perm.mem_iff.mp (List.mem_of_find?_eq_some found)) known ends
  have keep : (stem ++ s).length - s.length = stem.length := by
    rw [List.length_append]
    omega
  rw [stripSuffix, Option.bind_some, found, Option.bind_some]
  simp only [keep]
  rw [if_neg (by omega), List.take_left]

/-- **The copies of the test agree.** For every name without a slash the tool recognizes the path
of an operation of ethtool with this name exactly when `op_invoke` passes it to
`invoke_ethtool_get`; and the suffix of such a name with a stem that fits is cut off, whatever
the order of the table is. -/
theorem readOps_agree {name : CStr} (clean : charByte '/' ∉ name) :
    (∀ op family args t env, family.name = lit "ethtool" → op.overlayName = some name →
      (isEthtoolReadOp (some (lit "/netlink/genl/ethtool/" ++ name)) = true ↔
        isEthtoolGet op family = true) ∧
      opInvoke op family args t env =
        if isEthtoolReadOp (some (lit "/netlink/genl/ethtool/" ++ name)) then
          invokeEthtoolGet op family args t env
        else invokeGenericGenl op family args t env) ∧
      ∀ suffixes stem suffix, suffixes.Perm opSuffixes → suffix ∈ readSuffixes →
        name = stem ++ suffix → 1 ≤ stem.length → stem.length ≤ 63 →
        isEthtoolReadOp (some (lit "/netlink/genl/ethtool/" ++ name)) = true ∧
          stripSuffix suffixes (some name) 64 = some stem := by
  constructor
  · intro op family args t env isEthtool named
    have route : isEthtoolReadOp (some (lit "/netlink/genl/ethtool/" ++ name)) =
        isEthtoolGet op family := by
      rw [isEthtoolReadOp_path clean, isEthtoolGet, isEthtool, named, beq_self_eq_true,
        Bool.true_and]
    rw [route]
    exact ⟨Iff.rfl, rfl⟩
  · rintro suffixes stem suffix perm isRead rfl long short
    have known : suffix ∈ opSuffixes := readSuffixes_subset suffix isRead
    refine ⟨?_, stripSuffix_append perm known (List.ne_nil_of_length_pos long) (by omega)⟩
    rw [isEthtoolReadOp_path clean, opNameEndsInGet, Option.any_some, List.any_eq_true]
    exact ⟨suffix, isRead, List.isSuffixOf_iff_suffix.mpr (List.suffix_append stem suffix)⟩

/-- A read operation, with the table the other way round. -/
theorem linkstateGet_read :
    isEthtoolReadOp (some (lit "/netlink/genl/ethtool/" ++ lit "LINKSTATE_GET")) = true ∧
      stripSuffix opSuffixes.reverse (some (lit "LINKSTATE_GET")) 64 = some (lit "LINKSTATE") :=
  (readOps_agree (by decide)).2 _ _ (lit "_GET") (List.reverse_perm _) (by decide) (by decide)
    (by decide) (by decide)

end Ykern.Genl
