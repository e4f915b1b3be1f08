import Ykern.Foundation.Framing

/-!
# Walking records in memory

A program walks a stream of records in memory with a pointer and a signed number
of bytes that remain, which it decreases by the padded length of each record; after
a last record whose padding is cut short it is negative. The addresses visited
(`walk`) are those of the records that reading the remaining bytes takes off
(`walk_frames`), each record lies in these bytes (`walk_within`), and nothing
remains after a stream of padded records (`walkRest_encode`). A loop over the
records whose body looks at them only is a loop over the records read
(`foldl_walk`).
-/

set_option autoImplicit false

namespace Ykern

namespace Framing

variable (F : Framing) (mem : Mem)

/-- The length the record at an address declares. -/
def declaredAt (p : Nat) : Nat := F.declared (mem.slice p F.header)

/-- The record at an address. -/
def recordAt (p : Nat) : Bytes := mem.slice p (F.declaredAt mem p)

/-- A whole record is at an address, with so many bytes remaining. -/
def Ok (p : Nat) (rem : Int) : Prop :=
  (F.header : Int) ≤ rem ∧ F.header ≤ F.declaredAt mem p ∧ (F.declaredAt mem p : Int) ≤ rem

instance (p : Nat) (rem : Int) : Decidable (F.Ok mem p rem) :=
  inferInstanceAs (Decidable (_ ∧ _ ∧ _))

theorem declaredAt_eq {p n : Nat} (long : F.header ≤ n) :
    F.declaredAt mem p = F.declared (mem.slice p n) := by
  obtain ⟨m, rfl⟩ := Nat.exists_eq_add_of_le long
  rw [Mem.slice_add, F.declared_append _ _ (by simp), declaredAt]

/-- A record is where its bytes are. -/
theorem recordAt_of_stored {f : Bytes} (isFrame : F.IsFrame f) {p : Nat}
    (stored : mem.slice p f.length = f) : F.declaredAt mem p = f.length ∧ F.recordAt mem p = f := by
  have declared : F.declaredAt mem p = f.length := by
    rw [F.declaredAt_eq mem isFrame.1, stored, isFrame.2]
  exact ⟨declared, by rw [recordAt, declared, stored]⟩

/-- A record that was copied to memory is the record there. -/
theorem declaredAt_place {f : Bytes} (isFrame : F.IsFrame f) (p : Nat) :
    F.declaredAt (mem.place f p) p = f.length := by
  rw [F.declaredAt_eq (mem.place f p) isFrame.1, Mem.slice_place, isFrame.2]

theorem recordAt_place {f : Bytes} (isFrame : F.IsFrame f) (p : Nat) :
    F.recordAt (mem.place f p) p = f := by
  rw [recordAt, declaredAt_place F mem isFrame, Mem.slice_place]

theorem ok_iff_fits (p : Nat) (rem : Int) :
    F.Ok mem p rem ↔ F.Fits (mem.slice p rem.toNat) := by
  have pos := F.header_pos
  constructor
  · rintro ⟨long, covers, within⟩
    rw [Fits, ← F.declaredAt_eq mem (by omega), Mem.length_slice]
    omega
  · rintro ⟨long, covers, within⟩
    rw [Mem.length_slice] at long within
    rw [← F.declaredAt_eq mem long] at covers within
    exact ⟨by omega, covers, by omega⟩

variable {F mem}

theorem Ok.advance {p : Nat} {rem : Int} (ok : F.Ok mem p rem) :
    (rem - align4 (F.declaredAt mem p)).toNat < rem.toNat := by
  have := F.header_pos
  have := le_align4 (F.declaredAt mem p)
  obtain ⟨_, _, _⟩ := ok
  omega

/-- The bytes that remain after a record. -/
theorem Ok.drop_slice {p : Nat} {rem : Int} (ok : F.Ok mem p rem) :
    (mem.slice p rem.toNat).drop (align4 (F.declaredAt mem p)) =
      mem.slice (p + align4 (F.declaredAt mem p)) (rem - align4 (F.declaredAt mem p)).toNat := by
  obtain ⟨_, _, _⟩ := ok
  by_cases within : align4 (F.declaredAt mem p) ≤ rem.toNat
  · rw [Mem.drop_slice mem p within]
    congr 1
    omega
  · rw [List.drop_eq_nil_of_le (by simp; omega), show (rem - align4 (F.declaredAt mem p)).toNat = 0 by omega]
    rfl

/-- The record at an address is read first. -/
theorem Ok.frames_slice {p : Nat} {rem : Int} (ok : F.Ok mem p rem) :
    F.frames (mem.slice p rem.toNat) =
      F.recordAt mem p :: F.frames (mem.slice (p + align4 (F.declaredAt mem p))
        (rem - align4 (F.declaredAt mem p)).toNat) := by
  have fits := (F.ok_iff_fits mem p rem).mp ok
  have long : F.header ≤ rem.toNat := by simpa using fits.1
  have within : F.declaredAt mem p ≤ rem.toNat := by have := ok.2.2; omega
  rw [F.frames_of_fits fits, ← F.declaredAt_eq mem long, ok.drop_slice, Mem.take_slice mem p within]
  rfl

theorem frames_slice_of_not_ok {p : Nat} {rem : Int} (ok : ¬F.Ok mem p rem) :
    F.frames (mem.slice p rem.toNat) = [] :=
  F.frames_of_not_fits fun fits => ok ((F.ok_iff_fits mem p rem).mpr fits)

variable (F mem)

/-- The addresses of the records a walk visits. -/
def walk (p : Nat) (rem : Int) : List Nat :=
  if _ok : F.Ok mem p rem then
    p :: walk (p + align4 (F.declaredAt mem p)) (rem - align4 (F.declaredAt mem p))
  else []
termination_by rem.toNat
decreasing_by exact Ok.advance _ok

/-- The number of bytes that remain at the end of a walk. -/
def walkRest (p : Nat) (rem : Int) : Int :=
  if _ok : F.Ok mem p rem then
    walkRest (p + align4 (F.declaredAt mem p)) (rem - align4 (F.declaredAt mem p))
  else rem
termination_by rem.toNat
decreasing_by exact Ok.advance _ok

variable {F mem}

theorem walk_of_ok {p : Nat} {rem : Int} (ok : F.Ok mem p rem) :
    F.walk mem p rem =
      p :: F.walk mem (p + align4 (F.declaredAt mem p)) (rem - align4 (F.declaredAt mem p)) := by
  rw [walk, dif_pos ok]

theorem walk_of_not_ok {p : Nat} {rem : Int} (ok : ¬F.Ok mem p rem) : F.walk mem p rem = [] := by
  rw [walk, dif_neg ok]

variable (F mem)

/-- **A walk visits the records that reading takes off.** -/
theorem walk_frames (p : Nat) (rem : Int) :
    (F.walk mem p rem).map (F.recordAt mem) = F.frames (mem.slice p rem.toNat) := by
  induction p, rem using walk.induct F mem with
  | case1 p rem ok ih =>
      rw [walk_of_ok ok, ok.frames_slice, List.map_cons, ih]
  | case2 p rem ok =>
      rw [walk_of_not_ok ok, frames_slice_of_not_ok ok]
      rfl

variable {F mem}

/-- Each record visited lies in the bytes walked. -/
theorem walk_within {p a : Nat} {rem : Int} (member : a ∈ F.walk mem p rem) :
    p ≤ a ∧ F.header ≤ F.declaredAt mem a ∧ (a + F.declaredAt mem a : Int) ≤ p + rem := by
  induction p, rem using walk.induct F mem with
  | case1 p rem ok ih =>
      rw [walk_of_ok ok] at member
      obtain ⟨_, covers, within⟩ := ok
      rcases List.mem_cons.mp member with rfl | later
      · exact ⟨le_refl _, covers, by omega⟩
      · obtain ⟨first, covers', within'⟩ := ih later
        exact ⟨by omega, covers', by push_cast at within'; omega⟩
  | case2 p rem ok =>
      rw [walk_of_not_ok ok] at member
      cases member

/-- A loop whose body looks at records only folds over the records read. -/
theorem foldl_walk {σ : Type} {body : σ → Nat → σ} {record : σ → Bytes → σ}
    (looks : ∀ s a, F.header ≤ F.declaredAt mem a → body s a = record s (F.recordAt mem a)) (s : σ)
    (p : Nat) (rem : Int) :
    (F.walk mem p rem).foldl body s = (F.frames (mem.slice p rem.toNat)).foldl record s := by
  rw [← walk_frames, List.foldl_map]
  exact List.foldl_ext _ _ s fun s a member => looks s a (walk_within member).2.1

/-- **Nothing remains after a stream of padded records.** -/
theorem walkRest_encode {fs : List Bytes} (isFrame : ∀ f ∈ fs, F.IsFrame f) {p : Nat}
    (stored : mem.slice p (encode fs).length = encode fs) :
    F.walkRest mem p (encode fs).length = 0 := by
  induction fs generalizing p with
  | nil =>
      have pos := F.header_pos
      rw [walkRest, dif_neg fun ok => by have := ok.1; simp at this; omega]
      rfl
  | cons f fs ih =>
      have whole := isFrame f (by simp)
      have fits : F.Fits (encode (f :: fs)) := by
        rw [encode_cons, padded, List.append_assoc]
        exact whole.fits_append _
      have ok : F.Ok mem p ((encode (f :: fs)).length : Nat) :=
        (F.ok_iff_fits mem p _).mpr (by simpa only [Int.toNat_natCast, stored] using fits)
      have declared : F.declaredAt mem p = f.length := by
        rw [F.declaredAt_eq mem (n := (encode (f :: fs)).length) fits.1, stored, encode_cons, padded,
          List.append_assoc]
        exact whole.declared_append _
      have length : (encode (f :: fs)).length = align4 f.length + (encode fs).length := by simp
      rw [walkRest, dif_pos ok, declared, length]
      have rest : mem.slice (p + align4 f.length) (encode fs).length = encode fs := by
        rw [length, Mem.slice_add, encode_cons] at stored
        exact (List.append_inj stored (by simp)).2
      have := ih (fun g member => isFrame g (by simp [member])) rest
      push_cast
      rwa [add_sub_cancel_left]

end Framing

end Ykern
