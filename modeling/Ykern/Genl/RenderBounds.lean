import Ykern.Genl.Render

/-!
# What rendering reads, and how deep it goes

A rendering computation stays within bounds when each byte it reads lies in a window
and no call it enters is deeper than a limit (`Within`). The helpers stay within the
attribute they are given, whose end the loop has checked before, and a recursive call
handles the payload of an attribute, which is shorter than the bytes of the caller
by a header. Hence rendering stays within the bytes to be rendered and is at most
one level deep for every four of them (`renderAttrsRecursive_within`).
-/

set_option autoImplicit false

namespace Ykern.Genl

open Overlay Netlink

/-- A byte read lies from `lo` up to `hi`, and a call entered is no deeper than the
limit. -/
def Within (lo : Nat) (hi : Int) (limit : Nat) : RenderEvent → Prop
  | .read a => lo ≤ a ∧ (a : Int) < hi
  | .enter depth => depth ≤ limit
  | .write _ => True

variable {lo : Nat} {hi : Int} {limit : Nat}

/-! ## Reading and writing -/

section Helpers

variable {mem : Mem} {p n : Nat}

theorem load8_within (low : lo ≤ p) (high : (p : Int) < hi) :
    Traced.Every (Within lo hi limit) (load8 mem p) :=
  .bind (.emit ⟨low, high⟩) (.pure _)

theorem loadUint_within (low : lo ≤ p) (high : (p + n : Int) ≤ hi) :
    Traced.Every (Within lo hi limit) (loadUint mem p n) := by
  induction n generalizing p with
  | zero => exact .pure 0
  | succ n ih =>
      push_cast at high
      exact .bind (load8_within low (by omega)) (.bind (ih (by omega) (by push_cast; omega)) (.pure _))

theorem loadString_within (low : lo ≤ p) (high : (p + n : Int) ≤ hi) :
    Traced.Every (Within lo hi limit) (loadString mem p n) := by
  induction n generalizing p with
  | zero => exact .pure []
  | succ n ih =>
      push_cast at high
      refine .bind (load8_within low (by omega)) ?_
      split
      · exact .pure []
      · exact .bind (ih (by omega) (by push_cast; omega)) (.pure _)

theorem nlaLen_within (low : lo ≤ p) (high : (p + 4 : Int) ≤ hi) :
    Traced.Every (Within lo hi limit) (nlaLen mem p) :=
  .bind (.emit ⟨low, by omega⟩) (.bind (.emit ⟨by omega, by push_cast; omega⟩) (.pure _))

theorem nlaType_within (low : lo ≤ p) (high : (p + 4 : Int) ≤ hi) :
    Traced.Every (Within lo hi limit) (nlaType mem p) :=
  .bind (.emit ⟨by omega, by push_cast; omega⟩)
    (.bind (.emit ⟨by omega, by push_cast; omega⟩) (.pure _))

/-- The test for an attribute reads its length only when it lies in the bytes that
remain. -/
theorem nlaOk_within {rem : Int} (low : lo ≤ p) (high : p + rem ≤ hi) :
    Traced.Every (Within lo hi limit) (nlaOk mem p rem) := by
  unfold nlaOk
  split
  · exact .bind (nlaLen_within low (by omega)) (.pure _)
  · exact .pure _

theorem tbAppend_within (text : Bytes) : Traced.Every (Within lo hi limit) (tbAppend text) :=
  .emit trivial

theorem tbIndent_within (depth : Nat) : Traced.Every (Within lo hi limit) (tbIndent depth) := by
  induction depth with
  | zero => exact .pure ()
  | succ depth ih => exact .bind (tbAppend_within _) ih

/-! ## Scalars -/

theorem looksPrintable_within (low : lo ≤ p) (high : (p + n : Int) ≤ hi) :
    Traced.Every (Within lo hi limit) (looksPrintable mem p n) := by
  induction n generalizing p with
  | zero => exact .pure true
  | succ n ih =>
      push_cast at high
      refine .bind (load8_within low (by omega)) ?_
      split
      · exact .pure false
      · split
        · exact .pure false
        · exact ih (by omega) (by push_cast; omega)

theorem looksLikeString_within (low : lo ≤ p) (high : (p + n : Int) ≤ hi) :
    Traced.Every (Within lo hi limit) (looksLikeString mem p n) := by
  unfold looksLikeString
  split
  · exact .pure false
  · refine .bind (load8_within (by omega) (by push_cast; omega)) ?_
    split
    · exact .pure false
    · exact looksPrintable_within low (by omega)

theorem showBytes_within (low : lo ≤ p) (high : (p + n : Int) ≤ hi) :
    Traced.Every (Within lo hi limit) (showBytes mem p n) := by
  induction n generalizing p with
  | zero => exact .pure ()
  | succ n ih =>
      push_cast at high
      exact .bind (load8_within low (by omega))
        (.bind (tbAppend_within _) (ih (by omega) (by push_cast; omega)))

theorem renderBySize_within (low : lo ≤ p) (high : (p + n : Int) ≤ hi) :
    Traced.Every (Within lo hi limit) (renderBySize mem p n) := by
  unfold renderBySize
  split
  · exact .bind (loadUint_within low high) (tbAppend_within _)
  · exact .bind (loadUint_within low high) (tbAppend_within _)
  · exact .bind (loadUint_within low high) (tbAppend_within _)
  · exact .bind (loadUint_within low high) (tbAppend_within _)
  · refine .bind (tbAppend_within _) (.bind (showBytes_within low (by omega)) ?_)
    exact .bind (tbAppend_within _) (tbAppend_within _)

theorem payloadIsString_within (low : lo ≤ p) (high : (p + n : Int) ≤ hi) :
    Traced.Every (Within lo hi limit) (payloadIsString mem p n) := by
  unfold payloadIsString
  split
  · exact looksLikeString_within low high
  · exact .pure false

theorem renderPayload_within (low : lo ≤ p) (high : (p + n : Int) ≤ hi) :
    Traced.Every (Within lo hi limit) (renderPayload mem p n) := by
  unfold renderPayload
  split
  · exact tbAppend_within _
  · refine .bind (payloadIsString_within low high) ?_
    split
    · exact .bind (loadString_within low (by omega)) (tbAppend_within _)
    · exact renderBySize_within low high

/-! ## Bit sets -/

/-- The name an entry is printed with lies in the window. -/
def BitLocals.NameWithin (lo : Nat) (hi : Int) (l : BitLocals) : Prop :=
  ∀ name nameLen, l.name = some (name, nameLen) → lo ≤ name ∧ (name + nameLen : Int) ≤ hi

theorem bitNameLen_within (low : lo ≤ p) (high : (p + n : Int) ≤ hi) :
    Traced.Every (Within lo hi limit) (bitNameLen mem p n) := by
  unfold bitNameLen
  split
  · exact .bind (load8_within (by omega) (by push_cast; omega)) (.pure _)
  · exact .pure _

theorem bitNameLen_le : (bitNameLen mem p n).val ≤ n := by
  unfold bitNameLen
  split
  · show (if mem (p + (n - 1)) = 0 then n - 1 else n) ≤ n
    split
    · exact Nat.sub_le n 1
    · exact le_refl n
  · exact le_refl n

theorem bitPayload_within (ids : BitIds) (t : UInt32) (l : BitLocals) (low : lo ≤ p)
    (high : (p + n : Int) ≤ hi) :
    Traced.Every (Within lo hi limit) (bitPayload mem ids t p n l) := by
  unfold bitPayload
  split
  · next long => exact .bind (loadUint_within low (by push_cast; omega)) (.pure _)
  · split
    · exact .bind (bitNameLen_within low high) (.pure _)
    · split
      · exact .pure _
      · exact .pure _

theorem bitPayload_nameWithin (ids : BitIds) (t : UInt32) {l : BitLocals} (low : lo ≤ p)
    (high : (p + n : Int) ≤ hi) (before : l.NameWithin lo hi) :
    (bitPayload mem ids t p n l).val.NameWithin lo hi := by
  unfold bitPayload
  split
  · exact before
  · split
    · intro name nameLen same
      obtain ⟨rfl, rfl⟩ := Prod.mk.inj (Option.some.inj same)
      have short : (bitNameLen mem p n).val ≤ n := bitNameLen_le
      exact ⟨low, by omega⟩
    · split
      · exact before
      · exact before

theorem bitName_within {l : BitLocals} (inside : l.NameWithin lo hi) :
    Traced.Every (Within lo hi limit) (bitName mem l.name) := by
  unfold bitName
  split
  · next name nameLen same =>
      obtain ⟨low, high⟩ := inside name nameLen same
      exact .bind (loadString_within low high) (.pure _)
  · exact .pure none

end Helpers

section Walk

variable {mem : Mem} {na : Nat}

theorem bitAttr_within (ids : BitIds) (l : BitLocals) (covers : 4 ≤ nla.declaredAt mem na)
    (low : lo ≤ na) (high : (na + nla.declaredAt mem na : Int) ≤ hi) :
    Traced.Every (Within lo hi limit) (bitAttr mem ids na l) :=
  .bind (nlaType_within low (by omega)) (.bind (nlaLen_within low (by omega))
    (bitPayload_within (n := nla.declaredAt mem na - 4) ids _ l (by omega) (by push_cast; omega)))

/-- The loop over the attributes of an entry stays within them, and so does the name it
finds. -/
theorem bitLoop_within (ids : BitIds) {rem : Int} {l : BitLocals} (low : lo ≤ na)
    (high : na + rem ≤ hi) (before : l.NameWithin lo hi) :
    Traced.Every (Within lo hi limit) (bitLoop mem ids na rem l) ∧
      (bitLoop mem ids na rem l).val.NameWithin lo hi := by
  induction remaining : rem.toNat using Nat.strong_induction_on generalizing na rem l with
  | _ n ih =>
      subst remaining
      have test : Traced.Every (Within lo hi limit) (nlaOk mem na rem) := nlaOk_within low high
      by_cases ok : nla.Ok mem na rem
      · have ⟨long, covers, within⟩ := ok
        have header : nla.header = 4 := rfl
        have inside : (na + nla.declaredAt mem na : Int) ≤ hi := by omega
        have named : (bitAttr mem ids na l).val.NameWithin lo hi :=
          bitPayload_nameWithin (n := nla.declaredAt mem na - 4) ids _ (by omega)
            (by push_cast; omega) before
        have rest := @ih _ ok.advance (na + align4 (nla.declaredAt mem na)) _ _ (by omega)
          (by push_cast; omega) named rfl
        rw [bitLoop_of_ok ids l ok]
        exact ⟨.bind test (.bind (bitAttr_within ids l covers low inside)
          (.bind (nlaLen_within low (by omega)) rest.1)), rest.2⟩
      · rw [bitLoop_of_not_ok ids l ok]
        exact ⟨.bind test (.pure l), before⟩

theorem tryRenderBitCompact_within (bitSet : AttrSetOverlay) (depth : Nat)
    (covers : 4 ≤ nla.declaredAt mem na) (low : lo ≤ na)
    (high : (na + nla.declaredAt mem na : Int) ≤ hi) :
    Traced.Every (Within lo hi limit) (tryRenderBitCompact mem na bitSet depth) := by
  unfold tryRenderBitCompact
  split
  · exact .pure false
  · next ids found =>
      have loop : Traced.Every (Within lo hi limit)
          (bitLoop mem ids (na + 4) (nla.declaredAt mem na - 4 : Nat) ⟨none, none, false⟩) ∧
          (bitLoop mem ids (na + 4) (nla.declaredAt mem na - 4 : Nat)
            ⟨none, none, false⟩).val.NameWithin lo hi :=
        bitLoop_within ids (by omega) (by push_cast; omega) fun _ _ same => nomatch same
      exact .bind (nlaLen_within low (by omega)) (.bind loop.1 (.bind (tbIndent_within depth)
        (.bind (bitName_within loop.2) (.bind (tbAppend_within _) (.pure true)))))

/-! ## Attributes -/

theorem renderedCompact_within (childSet : Option AttrSetOverlay) (depth : Nat)
    (covers : 4 ≤ nla.declaredAt mem na) (low : lo ≤ na)
    (high : (na + nla.declaredAt mem na : Int) ≤ hi) :
    Traced.Every (Within lo hi limit) (renderedCompact mem na childSet depth) := by
  unfold renderedCompact
  split
  · split
    · exact tryRenderBitCompact_within _ depth covers low high
    · exact .pure false
  · exact .pure false

theorem renderUndeclared_within (depth : Nat) (low : lo ≤ na) (high : (na + 4 : Int) ≤ hi) :
    Traced.Every (Within lo hi limit) (renderUndeclared mem na depth) :=
  .bind (tbIndent_within _) (.bind (nlaLen_within low high) (tbAppend_within _))

theorem renderScalar_within (covers : 4 ≤ nla.declaredAt mem na) (low : lo ≤ na)
    (high : (na + nla.declaredAt mem na : Int) ≤ hi) :
    Traced.Every (Within lo hi limit) (renderScalar mem na) :=
  .bind (nlaLen_within low (by omega))
    (renderPayload_within (n := nla.declaredAt mem na - 4) (by omega) (by push_cast; omega))

/-- An attribute is rendered within bounds when the recursive call is. -/
theorem renderNamed_within (t : UInt16) (nestedFlag : Bool) (name : Option CStr)
    (childSet : Option AttrSetOverlay) (depth : Nat) {recursive : AttrSetOverlay → Render Unit}
    (covers : 4 ≤ nla.declaredAt mem na) (low : lo ≤ na)
    (high : (na + nla.declaredAt mem na : Int) ≤ hi)
    (within : ∀ child, Traced.Every (Within lo hi limit) (recursive child)) :
    Traced.Every (Within lo hi limit)
      (renderNamed mem na t nestedFlag name childSet depth recursive) := by
  unfold renderNamed
  split
  · refine .bind (renderedCompact_within childSet depth covers low high) ?_
    split
    · exact .pure ()
    · refine .bind (tbIndent_within depth) (.bind (tbAppend_within _) ?_)
      split
      · exact within _
      · exact renderUndeclared_within depth low (by omega)
  · exact .bind (tbIndent_within depth)
      (.bind (tbAppend_within _) (renderScalar_within covers low high))

theorem renderLoop_within (set : Option AttrSetOverlay) (all : Option FamilyOverlay) (depth : Nat)
    {rem : Int} (low : lo ≤ na) (high : na + rem ≤ hi) (deep : depth + rem.toNat / 4 ≤ limit) :
    Traced.Every (Within lo hi limit) (renderLoop mem na rem set all depth) := by
  induction remaining : rem.toNat using Nat.strong_induction_on generalizing na rem set depth with
  | _ n ih =>
      subst remaining
      have test : Traced.Every (Within lo hi limit) (nlaOk mem na rem) := nlaOk_within low high
      by_cases ok : nla.Ok mem na rem
      · have ⟨long, covers, within⟩ := ok
        have header : nla.header = 4 := rfl
        rw [renderLoop_of_ok set all depth ok]
        refine .bind test (.bind (.bind (nlaType_within low (by omega))
          (renderNamed_within _ _ _ _ depth covers low (by omega) ?_)) ?_)
        · intro child
          exact .bind (nlaLen_within low (by omega)) (.bind (.emit (show depth + 1 ≤ limit by omega))
            (ih _ (by omega) (some child) (depth + 1) (by omega) (by push_cast; omega) (by omega) rfl))
        · exact .bind (nlaLen_within low (by omega))
            (ih _ ok.advance set depth (by omega) (by push_cast; omega)
              (by have := ok.advance; omega) rfl)
      · rw [renderLoop_of_not_ok set all depth ok]
        exact .bind test (.pure ())

end Walk

/-- **Rendering reads the bytes to be rendered and no others, and its recursion is at most
one level deep for every four of them**, for all bytes, lengths and sets. It is a total
function, so it ends. -/
theorem renderAttrsRecursive_within (mem : Mem) (first : Nat) (totalLen : Int)
    (set : Option AttrSetOverlay) (all : Option FamilyOverlay) (depth : Nat) :
    Traced.Every (Within first (first + totalLen) (depth + (max totalLen 0).toNat / 4))
      (renderAttrsRecursive mem first totalLen set all depth) := by
  have positive : (max totalLen 0).toNat = totalLen.toNat := by omega
  rw [positive]
  exact .bind (.emit (Nat.le_add_right depth _))
    (renderLoop_within set all depth (le_refl _) (le_refl _) (le_refl _))

end Ykern.Genl
