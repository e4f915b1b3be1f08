import Ykern.Foundation.Memory

/-!
# Streams of length-prefixed records aligned to four bytes

A record starts with a fixed-size header that declares the record's length,
header included. In a stream, each record is followed by padding up to the next
multiple of four. A reader takes records off the front of a byte sequence as
long as a header fits, the declared length covers the header, and the record fits
(`Framing.frames`).

Reading is an inverse of writing: a sequence of whole records, padded between
them, is read back as exactly these records (`Packs.frames_eq`), and a padded
record in front of any bytes is read first (`frames_append`). Every record read
declares its own length (`isFrame_of_mem_frames`), whatever the bytes are.
-/

set_option autoImplicit false

namespace Ykern

/-- The next multiple of four. -/
def align4 (n : Nat) : Nat := (n + 3) / 4 * 4

theorem le_align4 (n : Nat) : n ≤ align4 n := by unfold align4; omega

theorem align4_mod (n : Nat) : align4 n % 4 = 0 := by unfold align4; omega

/-- The padding that brings a record of this length to a multiple of four. -/
def padding (n : Nat) : Nat := align4 n - n

theorem add_padding (n : Nat) : n + padding n = align4 n := by
  have := le_align4 n
  unfold padding; omega

/-- How a kind of record declares its length. -/
structure Framing where
  /-- The size of the header. -/
  header : Nat
  /-- The length a record declares, read from its header. -/
  declared : Bytes → Nat
  header_pos : 0 < header
  declared_append : ∀ bs more, header ≤ bs.length → declared (bs ++ more) = declared bs

namespace Framing

variable (F : Framing)

/-- A whole record is at the front of the bytes. -/
def Fits (bs : Bytes) : Prop :=
  F.header ≤ bs.length ∧ F.header ≤ F.declared bs ∧ F.declared bs ≤ bs.length

instance (bs : Bytes) : Decidable (F.Fits bs) := inferInstanceAs (Decidable (_ ∧ _ ∧ _))

theorem Fits.drop_lt {bs : Bytes} {F : Framing} (fits : F.Fits bs) :
    (bs.drop (align4 (F.declared bs))).length < bs.length := by
  have := F.header_pos
  have := le_align4 (F.declared bs)
  obtain ⟨_, _, _⟩ := fits
  rw [List.length_drop]
  omega

/-- The records a reader takes off the front of the bytes. -/
def frames (bs : Bytes) : List Bytes :=
  if _fits : F.Fits bs then
    bs.take (F.declared bs) :: frames (bs.drop (align4 (F.declared bs)))
  else []
termination_by bs.length
decreasing_by exact Fits.drop_lt _fits

theorem frames_of_fits {bs : Bytes} (fits : F.Fits bs) :
    F.frames bs = bs.take (F.declared bs) :: F.frames (bs.drop (align4 (F.declared bs))) := by
  rw [frames, dif_pos fits]

theorem frames_of_not_fits {bs : Bytes} (fits : ¬ F.Fits bs) : F.frames bs = [] := by
  rw [frames, dif_neg fits]

theorem frames_of_short {bs : Bytes} (short : bs.length < F.header) : F.frames bs = [] :=
  F.frames_of_not_fits fun fits => by have := fits.1; omega

@[simp] theorem frames_nil : F.frames [] = [] := F.frames_of_short F.header_pos

/-- A whole record: its header declares its length. -/
def IsFrame (f : Bytes) : Prop := F.header ≤ f.length ∧ F.declared f = f.length

instance (f : Bytes) : Decidable (F.IsFrame f) := inferInstanceAs (Decidable (_ ∧ _))

variable {F}

theorem IsFrame.declared_append {f : Bytes} (isFrame : F.IsFrame f) (more : Bytes) :
    F.declared (f ++ more) = f.length :=
  (F.declared_append f more isFrame.1).trans isFrame.2

theorem IsFrame.fits_append {f : Bytes} (isFrame : F.IsFrame f) (more : Bytes) :
    F.Fits (f ++ more) := by
  have declared := isFrame.declared_append more
  have header := isFrame.1
  refine ⟨?_, ?_, ?_⟩
  · rw [List.length_append]; omega
  · omega
  · rw [declared, List.length_append]; omega

/-- A record followed by less than its padding and nothing else is read alone. -/
theorem frames_last {f pad : Bytes} (isFrame : F.IsFrame f)
    (short : pad.length ≤ padding f.length) : F.frames (f ++ pad) = [f] := by
  rw [frames_of_fits F (isFrame.fits_append pad), isFrame.declared_append, List.take_left' rfl]
  have rest : (f ++ pad).drop (align4 f.length) = [] := by
    apply List.drop_eq_nil_of_le
    have := add_padding f.length
    rw [List.length_append]; omega
  rw [rest, frames_nil]

/-- **A padded record in front of any bytes is read first**, and then the bytes
after its padding. -/
theorem frames_append {f pad : Bytes} (isFrame : F.IsFrame f)
    (padded : pad.length = padding f.length) (rest : Bytes) :
    F.frames (f ++ pad ++ rest) = f :: F.frames rest := by
  have fits : F.Fits (f ++ pad ++ rest) := by
    rw [List.append_assoc]
    exact isFrame.fits_append _
  have declared : F.declared (f ++ pad ++ rest) = f.length := by
    rw [List.append_assoc]
    exact isFrame.declared_append _
  rw [frames_of_fits F fits, declared, List.append_assoc, List.take_left' rfl,
    ← List.append_assoc, List.drop_left']
  rw [List.length_append, padded, add_padding]

/-- The bytes consist of these whole records, each padded to a multiple of four
except that the padding of the last one may be cut short. -/
inductive Packs (F : Framing) : List Bytes → Bytes → Prop where
  | nil : Packs F [] []
  | last {f pad : Bytes} (isFrame : F.IsFrame f) (short : pad.length ≤ padding f.length) :
      Packs F [f] (f ++ pad)
  | cons {f pad : Bytes} {fs : List Bytes} {bs : Bytes} (isFrame : F.IsFrame f)
      (padded : pad.length = padding f.length) (packs : Packs F fs bs) :
      Packs F (f :: fs) (f ++ pad ++ bs)

/-- **Whole records are read back.** -/
theorem Packs.frames_eq {fs : List Bytes} {bs : Bytes} (packs : Packs F fs bs) :
    F.frames bs = fs := by
  induction packs with
  | nil => exact F.frames_nil
  | last isFrame short => exact frames_last isFrame short
  | cons isFrame padded _ ih => rw [frames_append isFrame padded, ih]

/-- A record with its padding, which is zero. -/
def padded (f : Bytes) : Bytes := f ++ List.replicate (padding f.length) 0

@[simp] theorem length_padded (f : Bytes) : (padded f).length = align4 f.length := by
  rw [padded, List.length_append, List.length_replicate, add_padding]

/-- A stream of records. -/
def encode (fs : List Bytes) : Bytes := fs.flatMap padded

@[simp] theorem encode_nil : encode [] = [] := rfl

@[simp] theorem encode_cons (f : Bytes) (fs : List Bytes) :
    encode (f :: fs) = padded f ++ encode fs := rfl

/-- A stream of records ends at a multiple of four. -/
theorem length_encode_mod (fs : List Bytes) : (encode fs).length % 4 = 0 := by
  induction fs with
  | nil => rfl
  | cons f fs ih =>
      rw [encode_cons, List.length_append, length_padded, align4]
      omega

theorem packs_encode {fs : List Bytes} (isFrame : ∀ f ∈ fs, F.IsFrame f) :
    Packs F fs (encode fs) := by
  induction fs with
  | nil => exact .nil
  | cons f fs ih =>
      exact .cons (isFrame f (by simp)) (by simp) (ih fun g member => isFrame g (by simp [member]))

/-- **A stream of records is read back.** -/
theorem frames_encode {fs : List Bytes} (isFrame : ∀ f ∈ fs, F.IsFrame f) :
    F.frames (encode fs) = fs :=
  (packs_encode isFrame).frames_eq

/-- A whole record with its padding, whatever the bytes of the padding are. -/
def IsPadded (F : Framing) (u : Bytes) : Prop :=
  ∃ f pad, F.IsFrame f ∧ pad.length = padding f.length ∧ u = f ++ pad

/-- **Padded records in front of any bytes are read first**, one after another. -/
theorem frames_flatten_append {us : List Bytes} (padded : ∀ u ∈ us, F.IsPadded u)
    (rest : Bytes) : F.frames (us.flatten ++ rest) = us.flatMap F.frames ++ F.frames rest := by
  induction us with
  | nil => rfl
  | cons u us ih =>
      obtain ⟨f, pad, isFrame, length, rfl⟩ := padded u List.mem_cons_self
      have later := ih fun u member => padded u (List.mem_cons_of_mem _ member)
      rw [List.flatten_cons, List.append_assoc, frames_append isFrame length, later,
        List.flatMap_cons, frames_last isFrame (le_of_eq length)]
      rfl

/-! ## Reading arbitrary bytes -/

theorem Fits.isFrame_take {bs : Bytes} (fits : F.Fits bs) : F.IsFrame (bs.take (F.declared bs)) := by
  obtain ⟨long, header, within⟩ := fits
  have length : (bs.take (F.declared bs)).length = F.declared bs := by
    rw [List.length_take]; omega
  have split := F.declared_append (bs.take (F.declared bs)) (bs.drop (F.declared bs))
    (by rw [length]; exact header)
  rw [List.take_append_drop] at split
  exact ⟨by rw [length]; exact header, by rw [length]; exact split.symm⟩

/-- Whatever the bytes are, every record read is whole. -/
theorem isFrame_of_mem_frames {bs f : Bytes} (member : f ∈ F.frames bs) : F.IsFrame f := by
  induction bs using frames.induct F with
  | case1 bs fits ih =>
      rw [frames_of_fits F fits] at member
      rcases List.mem_cons.mp member with rfl | tail
      · exact fits.isFrame_take
      · exact ih tail
  | case2 bs fits =>
      rw [frames_of_not_fits F fits] at member
      cases member

theorem length_le_of_mem_frames {bs f : Bytes} (member : f ∈ F.frames bs) :
    f.length ≤ bs.length := by
  induction bs using frames.induct F with
  | case1 bs fits ih =>
      rw [frames_of_fits F fits] at member
      rcases List.mem_cons.mp member with rfl | tail
      · rw [List.length_take]; exact min_le_right _ _
      · exact (ih tail).trans (le_of_lt fits.drop_lt)
  | case2 bs fits =>
      rw [frames_of_not_fits F fits] at member
      cases member

end Framing

end Ykern
