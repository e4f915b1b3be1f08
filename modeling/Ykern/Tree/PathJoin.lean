import Ykern.Genl.FamilyMessage
import Ykern.Tree.Path

/-!
# Two ways to a path

The path of an object is built at once by `ykern_ycore_object_get_path`, which goes up to the
root twice and then writes the names downwards, and one segment at a time by
`ykern_ycore_path_join`, which trims the path of the parent and formats a text. Both walks
visit the same objects, the buffer is filled to its last byte, and the two agree
(`getPath_spec`) as long as the text is not longer than what `vsnprintf` can tell the size of.
-/

set_option autoImplicit false

namespace Ykern.Tree

open Overlay

variable {ν : Type}

/-! ## Joining -/

/-- `ykern_ycore_text_format`, with the text formatted and the result of `malloc`. The size of
a text is an `int`, and `vsnprintf` fails on a longer one. -/
def textFormat (mallocs : Bool) (text : Bytes) : Except Error CStr :=
  if 2 ^ 31 - 1 < text.length then .error ["ykern_ycore_text_format: vsnprintf sizing failed"]
  else if mallocs = false then .error ["ykern_ycore_text_format: malloc failed"]
  else .ok text

/-- `%.*s`. A negative precision is none. -/
def printPrecision (precision : Int) (s : CStr) : Bytes :=
  if precision < 0 then s else s.take precision.toNat

/-- The loop of `ykern_ycore_path_join`. -/
def trimSlashes (parentPath : CStr) : Nat → Nat
  | 0 => 0
  | plen + 1 =>
      if parentPath.getD plen 0 = slash then trimSlashes parentPath plen else plen + 1

/-- `ykern_ycore_path_join`. -/
def pathJoin (mallocs : Bool) (parentPath segment : Option CStr) : Except Error CStr :=
  match segment with
  | none => .error ["ykern_ycore_path_join: segment is NULL"]
  | some segment =>
      if parentPath.getD [] = [] then textFormat mallocs (slash :: segment)
      else
        let plen := trimSlashes (parentPath.getD []) (parentPath.getD []).length
        textFormat mallocs
          (printPrecision (Genl.toInt (plen % 2 ^ 32)) (parentPath.getD []) ++ slash :: segment)

/-- The path of the names on the way up. -/
def pathOf (segs : List CStr) : CStr := if segs = [] then [slash] else joined slash segs

theorem pathOf_ne_nil (segs : List CStr) : pathOf segs ≠ [] := by
  unfold pathOf
  split
  · exact List.cons_ne_nil _ _
  · next nonempty =>
      obtain ⟨seg, others, rfl⟩ := List.exists_cons_of_ne_nil nonempty
      exact List.cons_ne_nil _ _

theorem pathOf_concat (segs : List CStr) (name : CStr) :
    pathOf (segs ++ [name]) = joined slash segs ++ slash :: name := by
  rw [pathOf, if_neg (List.append_ne_nil_of_right_ne_nil _ (List.cons_ne_nil _ _)), joined,
    List.flatMap_append, List.flatMap_singleton]
  rfl

/-- A path that does not end with a slash is not trimmed. -/
theorem trimSlashes_eq {p : CStr} (last : p.getLast? ≠ some slash) :
    trimSlashes p p.length = p.length := by
  rcases List.eq_nil_or_concat' p with rfl | ⟨init, c, rfl⟩
  · rfl
  · rw [List.getLast?_concat] at last
    have other : c ≠ slash := fun equal => last (by rw [equal])
    rw [List.length_append, List.length_singleton, trimSlashes, List.getD_append_right _ _ _ _
      (le_refl _), Nat.sub_self, List.getD_cons_zero, if_neg other]

/-- What is left of the path of a parent. -/
theorem take_trimSlashes {segs : List CStr}
    (clean : ∀ seg ∈ segs, seg ≠ [] ∧ seg.getLast? ≠ some slash) :
    (pathOf segs).take (trimSlashes (pathOf segs) (pathOf segs).length) = joined slash segs ∧
      trimSlashes (pathOf segs) (pathOf segs).length = (joined slash segs).length := by
  rcases List.eq_nil_or_concat' segs with rfl | ⟨init, name, rfl⟩
  · exact ⟨rfl, rfl⟩
  · have ⟨nonempty, last⟩ := clean name (by simp)
    have whole : pathOf (init ++ [name]) = joined slash (init ++ [name]) :=
      if_neg (List.append_ne_nil_of_right_ne_nil _ (List.cons_ne_nil _ _))
    have ends : (pathOf (init ++ [name])).getLast? ≠ some slash := by
      rw [pathOf_concat, List.getLast?_append_of_ne_nil _ (List.cons_ne_nil _ _),
        List.getLast?_cons_of_ne_nil nonempty]
      exact last
    rw [trimSlashes_eq ends, List.take_length, whole]
    exact ⟨rfl, rfl⟩

/-- **A segment is joined to the path of its parent** as long as the text has a size. -/
theorem pathJoin_pathOf {segs : List CStr} {name : CStr}
    (clean : ∀ seg ∈ segs, seg ≠ [] ∧ seg.getLast? ≠ some slash)
    (short : (pathOf (segs ++ [name])).length < 2 ^ 31) :
    pathJoin true (some (pathOf segs)) (some name) = .ok (pathOf (segs ++ [name])) := by
  have ⟨taken, length⟩ := take_trimSlashes clean
  have size : (joined slash segs).length + (name.length + 1) < 2 ^ 31 := by
    rwa [pathOf_concat, List.length_append, List.length_cons] at short
  have precision : Genl.toInt ((joined slash segs).length % 2 ^ 32) =
      ((joined slash segs).length : Int) := by
    rw [Nat.mod_eq_of_lt (by omega), Genl.toInt_eq (by omega)]
  have kept : printPrecision ((joined slash segs).length : Int) (pathOf segs) =
      joined slash segs := by
    rw [printPrecision, if_neg (by omega), Int.toNat_natCast, ← length, taken]
  rw [pathJoin, Option.getD_some, if_neg (pathOf_ne_nil segs), length]
  show textFormat true (printPrecision (Genl.toInt ((joined slash segs).length % 2 ^ 32))
    (pathOf segs) ++ slash :: name) = _
  rw [precision, kept, ← pathOf_concat, textFormat, if_neg (by omega), if_neg Bool.noConfusion]

namespace Heap

/-! ## Going up -/

/-- The nodes visited by `for (p = self; p && p->kind != ROOT; p = p->parent)`. -/
def upward (h : Heap ν) : Nat → Option Addr → Option (List ν)
  | 0, _ => none
  | _ + 1, none => some []
  | steps + 1, some p => do
      let o ← h.cells p
      match o.impl with
      | .root _ => some []
      | .node v => do
          let above ← h.upward steps o.parent
          some (v :: above)

/-- The body of the second walk on these nodes, with the index it ends at. -/
def fillNames (names : ν → Except Error CStr) :
    List ν → Nat → List CStr → Option (Except Error (Nat × List CStr))
  | [], idx, segments => some (.ok (idx, segments))
  | v :: above, idx, segments =>
      match names v, idx with
      | .error e, _ => some (.error ("ykern_ycore_object_get_path: get_name failed" :: e))
      | .ok _, 0 => none
      | .ok name, idx + 1 => fillNames names above idx (segments.set idx name)

variable {h : Heap ν} {names : ν → Except Error CStr} {n : Addr} {segs : List CStr}
  {start : Option Addr}

/-- The first walk counts the nodes it visits. -/
theorem countDepth_of_upward {steps : Nat} {visited : List ν}
    (up : h.upward steps start = some visited) :
    h.countDepth steps start = some visited.length := by
  induction steps generalizing start visited with
  | zero => cases up
  | succ steps ih =>
      cases start with
      | none =>
          obtain rfl := Option.some.inj up
          rfl
      | some p =>
          simp only [Heap.upward, Heap.countDepth, Option.bind_eq_bind] at up ⊢
          obtain ⟨o, cell, up⟩ := Option.bind_eq_some_iff.mp up
          rw [cell, Option.bind_some]
          cases impl : o.impl with
          | root pending =>
              rw [impl] at up
              obtain rfl := Option.some.inj up
              rfl
          | node v =>
              rw [impl] at up
              obtain ⟨above, further, same⟩ := Option.bind_eq_some_iff.mp up
              obtain rfl := Option.some.inj same
              simp only [ih further, Option.bind_some, List.length_cons]

/-- The second walk visits the same nodes. -/
theorem fillSegments_of_upward {steps : Nat} {visited : List ν}
    (up : h.upward steps start = some visited) (idx : Nat) (segments : List CStr) :
    h.fillSegments names steps start idx segments =
      (fillNames names visited idx segments).map (·.map Prod.snd) := by
  induction steps generalizing start visited idx segments with
  | zero => cases up
  | succ steps ih =>
      cases start with
      | none =>
          obtain rfl := Option.some.inj up
          rfl
      | some p =>
          simp only [Heap.upward, Heap.fillSegments, Option.bind_eq_bind] at up ⊢
          obtain ⟨o, cell, up⟩ := Option.bind_eq_some_iff.mp up
          rw [cell, Option.bind_some]
          cases impl : o.impl with
          | root pending =>
              rw [impl] at up
              obtain rfl := Option.some.inj up
              rfl
          | node v =>
              rw [impl] at up
              obtain ⟨above, further, same⟩ := Option.bind_eq_some_iff.mp up
              obtain rfl := Option.some.inj same
              simp only [fillNames]
              cases names v with
              | error e => rfl
              | ok name =>
                  cases idx with
                  | zero => rfl
                  | succ idx => exact ih further idx _

/-- The nodes on the way up are those with its names, and the second walk ends at the first
slot. -/
theorem Climbs.upward (climbs : h.Climbs names start segs) {steps : Nat}
    (enough : segs.length < steps) :
    ∃ visited, h.upward steps start = some visited ∧ visited.length = segs.length ∧
      ∀ segments : List CStr, segs.length ≤ segments.length →
        fillNames names visited segs.length segments =
          some (.ok (0, segs ++ segments.drop segs.length)) := by
  induction climbs generalizing steps with
  | above =>
      obtain ⟨steps, rfl⟩ := Nat.exists_eq_add_of_lt enough
      exact ⟨[], rfl, rfl, fun segments _ => rfl⟩
  | root cell impl =>
      obtain ⟨steps, rfl⟩ := Nat.exists_eq_add_of_lt enough
      exact ⟨[], by simp [Heap.upward, cell, impl], rfl, fun segments _ => rfl⟩
  | @node a o v name segs cell impl isNamed _ ih =>
      obtain ⟨steps, rfl⟩ : ∃ s, steps = s + 1 := ⟨steps - 1, by omega⟩
      rw [List.length_append, List.length_singleton] at enough
      obtain ⟨visited, up, length, filled⟩ := ih (Nat.lt_of_succ_lt_succ enough)
      refine ⟨v :: visited, by simp [Heap.upward, cell, impl, up], ?_, ?_⟩
      · rw [List.length_cons, length, List.length_append, List.length_singleton]
      · intro segments room
        rw [List.length_append, List.length_singleton] at room ⊢
        have slot : (segments.set segs.length name).drop segs.length =
            name :: segments.drop (segs.length + 1) := by
          rw [List.drop_set, if_neg (Nat.lt_irrefl _), Nat.sub_self,
            List.drop_eq_getElem_cons (Nat.lt_of_succ_le room), List.set_cons_zero]
        simp only [fillNames, isNamed]
        rw [filled _ (by rw [List.length_set]; omega), slot, List.append_assoc,
          List.singleton_append]

/-! ## The path of an object -/

/-- The size that was summed up is what is written, with the NUL. -/
theorem putSegments_whole (segs : List CStr) (free : ∀ seg ∈ segs, (0 : UInt8) ∉ seg) :
    ∃ buf, ((putSegments (1 + (segs.map fun seg => 1 + seg.length).sum) segs).bind fun path =>
        put (1 + (segs.map fun seg => 1 + seg.length).sum) path [0]) = some buf ∧
      buf.length = 1 + (segs.map fun seg => 1 + seg.length).sum ∧
      cString buf = joined slash segs := by
  have size : (joined slash segs).length = (segs.map fun seg => 1 + seg.length).sum :=
    length_joined segs
  have noNul : (0 : UInt8) ∉ joined slash segs := by
    intro member
    obtain ⟨seg, isSeg, inside⟩ := List.mem_flatMap.mp member
    rcases List.mem_cons.mp inside with isSlash | behind
    · exact absurd isSlash (by decide)
    · exact free seg isSeg behind
  refine ⟨joined slash segs ++ [0], ?_, ?_, cString_append_nul noNul []⟩
  · rw [putSegments, foldlM_putSegment segs (by rw [List.length_nil]; omega), Option.bind_some,
      List.nil_append, put_eq (by rw [List.length_singleton]; omega)]
  · rw [List.length_append, List.length_singleton, size, Nat.add_comm]

/-- **The path of an object with finitely many ancestors.** Each name on the way down stands
behind a slash. Both walks visit the same nodes, and the second fills each slot once, from the
last to the first. The buffer is written to its end, and the string in it is the path. Below a
parent the path is what `path_join` makes of the path of the parent and the name, if no name
above is empty or ends with a slash and the size of the text is an `int`. -/
theorem getPath_spec (climbs : h.Climbs names (some n) segs)
    (free : ∀ seg ∈ segs, (0 : UInt8) ∉ seg) {steps : Nat} (enough : segs.length < steps) :
    h.getPath names true true steps n = some (.ok (pathOf segs)) ∧
      (∃ visited, h.upward steps (some n) = some visited ∧
        h.countDepth steps (some n) = some visited.length ∧
        (∀ idx segments, h.fillSegments names steps (some n) idx segments =
          (fillNames names visited idx segments).map (·.map Prod.snd)) ∧
        fillNames names visited visited.length (List.replicate visited.length []) =
          some (.ok (0, segs))) ∧
      (∃ buf, ((putSegments (1 + (segs.map fun seg => 1 + seg.length).sum) segs).bind fun path =>
          put (1 + (segs.map fun seg => 1 + seg.length).sum) path [0]) = some buf ∧
        buf.length = 1 + (segs.map fun seg => 1 + seg.length).sum ∧
        cString buf = joined slash segs) ∧
      ∀ o v m, h.cells n = some o → o.impl = .node v → o.parent = some m →
        ∃ above name, segs = above ++ [name] ∧ names v = .ok name ∧
          h.getPath names true true steps m = some (.ok (pathOf above)) ∧
          ((∀ seg ∈ above, seg ≠ [] ∧ seg.getLast? ≠ some slash) →
            (pathOf segs).length < 2 ^ 31 →
            pathJoin true (some (pathOf above)) (some name) = .ok (pathOf segs)) := by
  refine ⟨climbs.getPath enough, ?_, putSegments_whole segs free, ?_⟩
  · obtain ⟨visited, up, length, filled⟩ := climbs.upward enough
    refine ⟨visited, up, countDepth_of_upward up, fillSegments_of_upward up, ?_⟩
    rw [length, filled _ (by rw [List.length_replicate]), List.drop_replicate, Nat.sub_self,
      List.replicate_zero, List.append_nil]
  · intro o v m cell impl parent
    cases climbs with
    | root cell' impl' =>
        obtain rfl := Option.some.inj (cell.symm.trans cell')
        rw [impl] at impl'
        cases impl'
    | @node _ o' v' name above cell' impl' isNamed further =>
        obtain rfl := Option.some.inj (cell.symm.trans cell')
        obtain rfl := Impl.node.inj (impl.symm.trans impl')
        rw [parent] at further
        rw [List.length_append, List.length_singleton] at enough
        refine ⟨above, name, rfl, isNamed, further.getPath (by omega), ?_⟩
        intro clean short
        exact pathJoin_pathOf clean short

/-- A namespace below a transport. -/
theorem genl_path :
    genlTree.getPath .ok true true 3 2 = some (.ok (lit "/netlink/genl")) ∧
      pathJoin true (some (lit "/netlink")) (some (lit "genl")) = .ok (lit "/netlink/genl") := by
  have top : genlTree.Climbs .ok (some 0) ([] ++ [lit "netlink"]) :=
    .node rfl rfl rfl (.root rfl rfl)
  have climbs : genlTree.Climbs .ok (some 2) ([] ++ [lit "netlink"] ++ [lit "genl"]) :=
    .node rfl rfl rfl top
  have path := @getPath_spec _ _ _ _ _ climbs (by decide) 3 (by decide)
  obtain ⟨above, name, split, -, -, join⟩ := path.2.2.2 _ _ _ rfl rfl rfl
  obtain ⟨rfl, same⟩ : above = [lit "netlink"] ∧ [name] = [lit "genl"] :=
    List.append_inj' split.symm rfl
  obtain rfl := (List.cons.inj same).1
  exact ⟨path.1, join (by decide) (by decide)⟩

/-- **The path of a parent may be short and the joined path too long for `vsnprintf`**, which
is so for a name of 2^31 bytes below the root. -/
theorem pathJoin_overlong :
    ¬∀ (h : Heap CStr) (names : CStr → Except Error CStr) (n m : Addr) (o : Obj CStr)
      (v name : CStr) (above : List CStr), h.cells n = some o → o.impl = .node v →
      o.parent = some m → names v = .ok name → h.Climbs names (some m) above →
      (∀ seg ∈ above ++ [name], seg ≠ [] ∧ seg.getLast? ≠ some slash ∧ (0 : UInt8) ∉ seg) →
      (pathOf above).length < 2 ^ 31 →
      pathJoin true (some (pathOf above)) (some name) = .ok (pathOf (above ++ [name])) := by
  intro joins
  obtain ⟨name, size, letters⟩ :
      ∃ name : CStr, name.length = 2 ^ 31 ∧ ∀ c ∈ name, c = (97 : UInt8) := by
    refine ⟨List.replicate (2 ^ 31) 97, List.length_replicate, ?_⟩
    intro c member
    exact List.eq_of_mem_replicate member
  have fails : pathJoin true (some (pathOf [])) (some name) =
      .error ["ykern_ycore_text_format: vsnprintf sizing failed"] := by
    show textFormat true ([] ++ slash :: name) = _
    rw [List.nil_append, textFormat, if_pos (by rw [List.length_cons, size]; decide)]
  have joined := joins genlTree (fun _ => .ok name) 0 1 _ _ name [] rfl rfl rfl rfl
    (.root rfl rfl) ?_ (by decide)
  · rw [fails] at joined
    cases joined
  · intro seg member
    obtain rfl := List.mem_singleton.mp member
    refine ⟨?_, ?_, ?_⟩
    · rintro rfl
      cases size
    · intro last
      exact absurd (letters _ (List.mem_of_getLast? last)) (by decide)
    · intro nul
      exact absurd (letters _ nul) (by decide)

end Heap

end Ykern.Tree
