import Ykern.Foundation.GrowArray
import Ykern.Foundation.Memory

/-!
# Growing text buffers

Replies are rendered into a buffer that grows. The ethtool and the generic invocation share
one, and the route namespace has a copy of it under other names (`TextWriter`). A call formats
its text twice: once for the length alone, and, after the buffer has grown, into it.

A buffer that started empty holds the texts of the calls that succeeded, one after another
with a zero byte behind them (`TextBuf.Holds`), as long as the lengths do not come near the
range of sizes: every call ends, keeps this, and when it fails leaves the buffer as it was
(`appendWith_growBuffer`, `TextWriter.appendAll_spec`).
-/

set_option autoImplicit false

namespace Ykern.Netlink

/-! ## The buffer -/

/-- The number of values of `size_t`. -/
def sizeRange : Nat := 2 ^ 64

theorem sizeRange_eq : sizeRange = 18446744073709551616 := by
  unfold sizeRange
  rfl

/-- `struct text_buf` and `struct rtb`: the allocated bytes, if any, how many are text, and how
many were allocated. -/
structure TextBuf where
  data : Option Mem
  off : Nat
  cap : Nat

/-- A buffer of zeroes. -/
def TextBuf.zero : TextBuf := ⟨none, 0, 0⟩

/-- What a call meets: the text that its format and arguments give (nothing when formatting
fails), and what `realloc` returns if it is called (nothing for a null pointer, else what the
new bytes contain). -/
structure Append where
  text : Option Bytes
  memory : Option Mem

/-- `vsnprintf` without a destination: the length of the text as an `int`, negative when
formatting fails or the length is no `int`. -/
def vsnprintfLength : Option Bytes → Int
  | some text => if text.length < 2 ^ 31 then text.length else -1
  | none => -1

/-- `vsnprintf` to the address `p` of an allocation of `cap` bytes: at most `size - 1` bytes of
the text and a zero byte. Nothing when it writes where nothing is allocated. -/
def vsnprintf (data : Option Mem) (cap p size : Nat) (text : Bytes) : Option (Option Mem) :=
  if size = 0 then some data
  else if p + (text.take (size - 1)).length < cap then
    data.map fun mem => some (mem.place (text.take (size - 1) ++ [0]) p)
  else none

/-- The bytes after `realloc`: those of the old allocation, and behind them whatever the new
memory contains. -/
def reallocated (data : Option Mem) (cap : Nat) (memory : Mem) : Mem := fun a =>
  match data with
  | some mem => if a < cap then mem a else memory a
  | none => memory a

/-- `tb_grow` and `rtb_grow`: nothing when the loop does not end. -/
def growBuffer (steps : Nat) (b : TextBuf) (need : Nat) (memory : Option Mem) :
    Option (Bool × TextBuf) :=
  let wanted := (b.off + need + 1) % sizeRange
  if wanted ≤ b.cap then some (true, b)
  else do
    let cap ← GrowArray.doubleUntil sizeRange wanted steps (if b.cap = 0 then 256 else b.cap)
    match memory with
    | none => some (false, b)
    | some memory =>
        some (true, { b with data := some (reallocated b.data b.cap memory), cap := cap })

/-- `tb_appendf` and `rtb_appendf`, with the function that grows the buffer. -/
def appendWith (grow : TextBuf → Nat → Option Mem → Option (Bool × TextBuf)) (b : TextBuf)
    (call : Append) : Option (Bool × TextBuf) :=
  let n := vsnprintfLength call.text
  if n < 0 then some (false, b)
  else do
    let (grown, b) ← grow b n.toNat call.memory
    if grown then
      let data ← vsnprintf b.data b.cap b.off ((b.cap + sizeRange - b.off) % sizeRange)
        (call.text.getD [])
      some (true, { b with data := data, off := (b.off + n.toNat) % sizeRange })
    else some (false, b)

/-- `tb_grow`. -/
def tbGrow (steps : Nat) : TextBuf → Nat → Option Mem → Option (Bool × TextBuf) :=
  growBuffer steps

/-- `tb_appendf`. -/
def tbAppendf (steps : Nat) : TextBuf → Append → Option (Bool × TextBuf) :=
  appendWith (tbGrow steps)

/-- `rtb_grow`. -/
def rtbGrow (steps : Nat) : TextBuf → Nat → Option Mem → Option (Bool × TextBuf) :=
  growBuffer steps

/-- `rtb_appendf`. -/
def rtbAppendf (steps : Nat) : TextBuf → Append → Option (Bool × TextBuf) :=
  appendWith (rtbGrow steps)

/-! ## One call -/

/-- The length of a call's text, when it can be formatted. -/
def Append.size (call : Append) : Nat := (vsnprintfLength call.text).toNat

/-- A buffer holds a text: the text and a zero byte are in the allocation, and a buffer without
an allocation is empty. -/
structure TextBuf.Holds (b : TextBuf) (text : Bytes) : Prop where
  ranged : b.cap < sizeRange
  null : b.data = none → b.off = 0 ∧ b.cap = 0 ∧ text = []
  within : ∀ mem, b.data = some mem → b.off + 1 ≤ b.cap
  terminated : ∀ mem, b.data = some mem → mem b.off = 0
  written : ∀ mem, b.data = some mem → mem.slice 0 b.off = text

theorem TextBuf.holds_zero : TextBuf.zero.Holds [] where
  ranged := by simp [sizeRange_eq, TextBuf.zero]
  null _ := ⟨rfl, rfl, rfl⟩
  within _ absent := by cases absent
  terminated _ absent := by cases absent
  written _ absent := by cases absent

theorem TextBuf.Holds.off_eq {b : TextBuf} {text : Bytes} (holds : b.Holds text) :
    b.off = text.length := by
  cases allocated : b.data with
  | none =>
      obtain ⟨off, -, rfl⟩ := holds.null allocated
      exact off
  | some mem => rw [← holds.written mem allocated, Mem.length_slice]

/-- Reallocation keeps the bytes of the old allocation. -/
theorem reallocated_of_lt {mem : Mem} {cap a : Nat} (memory : Mem) (within : a < cap) :
    reallocated (some mem) cap memory a = mem a := if_pos within

/-- **Growing a buffer** ends, and fails only when the reallocation does. After it the text is
still there, with room behind it for what was asked for and a zero byte. -/
theorem growBuffer_spec {b : TextBuf} {text : Bytes} (holds : b.Holds text) {need : Nat}
    (sizes : 4 * (text.length + need) < sizeRange - 1) {steps : Nat} (enough : 64 ≤ steps)
    (memory : Option Mem) :
    (growBuffer steps b need memory = some (false, b) ∧ memory = none) ∨
      ∃ mem cap, growBuffer steps b need memory = some (true, ⟨some mem, b.off, cap⟩) ∧
        cap < sizeRange ∧ b.off + need + 1 ≤ cap ∧ mem.slice 0 b.off = text := by
  have off := holds.off_eq
  have unwrapped : (b.off + need + 1) % sizeRange = b.off + need + 1 :=
    Nat.mod_eq_of_lt (by rw [off]; omega)
  unfold growBuffer
  simp only [unwrapped]
  by_cases room : b.off + need + 1 ≤ b.cap
  · rw [if_pos room]
    cases allocated : b.data with
    | none =>
        obtain ⟨-, cap, -⟩ := holds.null allocated
        omega
    | some mem =>
        refine .inr ⟨mem, b.cap, ?_, holds.ranged, room, holds.written mem allocated⟩
        rw [← allocated]
  · rw [if_neg room]
    have start : 0 < (if b.cap = 0 then 256 else b.cap) ∧
        (if b.cap = 0 then 256 else b.cap) < sizeRange := by
      split
      · exact ⟨by omega, by rw [sizeRange_eq]; omega⟩
      · have ranged := holds.ranged
        omega
    have reach : b.off + need + 1 ≤ (if b.cap = 0 then 256 else b.cap) * 2 ^ 63 := by
      have least : 1 * 2 ^ 63 ≤ (if b.cap = 0 then 256 else b.cap) * 2 ^ 63 :=
        Nat.mul_le_mul_right _ start.1
      rw [sizeRange_eq] at sizes
      omega
    have fits : 2 * (b.off + need + 1) ≤ sizeRange := by rw [off]; omega
    obtain ⟨cap, ends, reached, ranged⟩ :=
      GrowArray.doubleUntil_spec fits 63 reach (Nat.lt_of_lt_of_le (by decide) enough)
    rw [ends]
    cases memory with
    | none => exact .inl ⟨rfl, rfl⟩
    | some memory =>
        refine .inr ⟨reallocated b.data b.cap memory, cap, rfl, ranged start.2, reached, ?_⟩
        cases allocated : b.data with
        | none =>
            obtain ⟨empty, -, rfl⟩ := holds.null allocated
            rw [empty, Mem.slice_zero]
        | some mem =>
            have within := holds.within mem allocated
            rw [← holds.written mem allocated]
            apply Mem.slice_congr
            intro a _ below
            exact reallocated_of_lt memory (by omega)

/-- **A text written into the room behind the text** is there after it, with a zero byte behind. -/
theorem vsnprintf_spec {mem : Mem} {off cap : Nat} {text piece : Bytes}
    (written : mem.slice 0 off = text) (room : off + piece.length + 1 ≤ cap) :
    ∃ mem', vsnprintf (some mem) cap off (cap - off) piece = some (some mem') ∧
      mem' (off + piece.length) = 0 ∧ mem'.slice 0 (off + piece.length) = text ++ piece := by
  have whole : piece.take (cap - off - 1) = piece := List.take_of_length_le (by omega)
  have placed := mem.slice_place (piece ++ [0]) off
  rw [List.length_append, Mem.slice_add] at placed
  obtain ⟨stored, terminator⟩ := List.append_inj placed (Mem.length_slice _ _ _)
  refine ⟨mem.place (piece ++ [0]) off, ?_, ?_, ?_⟩
  · rw [vsnprintf, if_neg (by omega), whole, if_pos (by omega)]
    rfl
  · exact (List.cons_eq_cons.mp terminator).1
  · have kept : (mem.place (piece ++ [0]) off).slice 0 off = text := by
      rw [← written]
      apply Mem.slice_congr
      intro a _ below
      exact mem.place_outside (.inl (by omega))
    rw [Mem.slice_add, Nat.zero_add, kept, stored]

/-- What a call adds to the text. -/
def Append.added (call : Append) (ok : Bool) : Bytes := if ok then call.text.getD [] else []

theorem Append.formatted {call : Append} (formats : ¬vsnprintfLength call.text < 0) :
    ∃ piece, call.text = some piece ∧ vsnprintfLength call.text = piece.length := by
  cases formatted : call.text with
  | none =>
      rw [formatted] at formats
      exact absurd (by decide) formats
  | some piece =>
      rw [formatted, vsnprintfLength] at formats
      refine ⟨piece, rfl, ?_⟩
      rw [vsnprintfLength]
      split
      · rfl
      · next long =>
          rw [if_neg long] at formats
          exact absurd (by decide) formats

/-- A call whose buffer grows writes the text and adds its length. -/
theorem appendWith_of_grown {grow : TextBuf → Nat → Option Mem → Option (Bool × TextBuf)}
    {b b' : TextBuf} {call : Append} {piece : Bytes} {data : Option Mem}
    (formatted : call.text = some piece) (length : vsnprintfLength call.text = piece.length)
    (grown : grow b piece.length call.memory = some (true, b'))
    (writes : vsnprintf b'.data b'.cap b'.off ((b'.cap + sizeRange - b'.off) % sizeRange) piece =
      some data) :
    appendWith grow b call =
      some (true, ⟨data, (b'.off + piece.length) % sizeRange, b'.cap⟩) := by
  have formats : ¬(piece.length : Int) < 0 := by omega
  unfold appendWith
  rw [length, if_neg formats, Int.toNat_natCast, grown, formatted, Option.getD_some]
  rw [Option.bind_eq_bind, Option.bind_some]
  refine (if_pos rfl).trans ?_
  rw [writes, Option.bind_eq_bind, Option.bind_some]

/-- **A call on a buffer that holds a text** ends. When it succeeds the buffer holds the new text
behind the old one; it fails only when formatting or the reallocation fails, and then leaves the
buffer as it was. -/
theorem appendWith_growBuffer {b : TextBuf} {text : Bytes} (holds : b.Holds text) {call : Append}
    (sizes : 4 * (text.length + call.size) < sizeRange - 1) {steps : Nat} (enough : 64 ≤ steps) :
    ∃ ok b', appendWith (growBuffer steps) b call = some (ok, b') ∧
      b'.Holds (text ++ call.added ok) ∧ (call.added ok).length ≤ call.size ∧
      (ok = false → b' = b ∧ (vsnprintfLength call.text < 0 ∨ call.memory = none)) := by
  have unchanged : b.Holds (text ++ call.added false) := by
    rwa [Append.added, if_neg Bool.false_ne_true, List.append_nil]
  have nothing : (call.added false).length ≤ call.size := Nat.zero_le _
  by_cases fails : vsnprintfLength call.text < 0
  · exact ⟨false, b, if_pos fails, unchanged, nothing, fun _ => ⟨rfl, .inl fails⟩⟩
  obtain ⟨piece, formatted, length⟩ := Append.formatted fails
  have size : call.size = piece.length := by rw [Append.size, length, Int.toNat_natCast]
  have off := holds.off_eq
  rw [size] at sizes
  rcases growBuffer_spec holds sizes enough call.memory with
    ⟨grown, failed⟩ | ⟨mem, cap, grown, ranged, room, written⟩
  · have returned : appendWith (growBuffer steps) b call = some (false, b) := by
      unfold appendWith
      rw [length, if_neg (by omega), Int.toNat_natCast, grown]
      rfl
    exact ⟨false, b, returned, unchanged, nothing, fun _ => ⟨rfl, .inr failed⟩⟩
  · have room' : (cap + sizeRange - b.off) % sizeRange = cap - b.off := by
      rw [show cap + sizeRange - b.off = cap - b.off + sizeRange by omega, Nat.add_mod_right]
      exact Nat.mod_eq_of_lt (by omega)
    have unwrapped : (b.off + piece.length) % sizeRange = b.off + piece.length :=
      Nat.mod_eq_of_lt (by omega)
    obtain ⟨mem', writes, terminated, written'⟩ := vsnprintf_spec written room
    have added : call.added true = piece := by rw [Append.added, if_pos rfl, formatted]; rfl
    refine ⟨true, ⟨some mem', b.off + piece.length, cap⟩, ?_, ?_, ?_, nofun⟩
    · rw [← room'] at writes
      rw [appendWith_of_grown formatted length grown writes, unwrapped]
    · rw [added]
      refine ⟨ranged, ?_, ?_, ?_, ?_⟩
      · intro absent
        cases absent
      · intro _ _
        exact room
      · rintro _ ⟨⟩
        exact terminated
      · rintro _ ⟨⟩
        exact written'
    · rw [added, size]

/-! ## The two copies -/

/-- Who writes into a buffer: the invocations of generic netlink operations, or the route
namespace. -/
inductive TextWriter where
  | tb
  | rtb

namespace TextWriter

/-- The function that appends. -/
def appendf (steps : Nat) : TextWriter → TextBuf → Append → Option (Bool × TextBuf)
  | .tb => tbAppendf steps
  | .rtb => rtbAppendf steps

theorem appendf_eq (steps : Nat) (writer : TextWriter) :
    writer.appendf steps = appendWith (growBuffer steps) := by
  cases writer <;> rfl

/-- One call after another: what they returned, and the buffer after them. -/
def appendAll (steps : Nat) (writer : TextWriter) (b : TextBuf) :
    List Append → Option (List Bool × TextBuf)
  | [] => some ([], b)
  | call :: calls => do
      let (ok, b) ← writer.appendf steps b call
      let (oks, b) ← appendAll steps writer b calls
      some (ok :: oks, b)

/-- The texts of the calls that returned 1, in order. -/
def succeeded : List Append → List Bool → Bytes
  | call :: calls, ok :: oks => call.added ok ++ succeeded calls oks
  | _, _ => []

/-- **Calls on a buffer that holds a text** end, and what they write is behind it. -/
theorem appendAll_holds (writer : TextWriter) {steps : Nat} (enough : 64 ≤ steps)
    (calls : List Append) {b : TextBuf} {text : Bytes} (holds : b.Holds text)
    (sizes : 4 * (text.length + (calls.map Append.size).sum) < sizeRange - 1) :
    ∃ oks b', writer.appendAll steps b calls = some (oks, b') ∧ oks.length = calls.length ∧
      b'.Holds (text ++ succeeded calls oks) ∧
      (succeeded calls oks).length ≤ (calls.map Append.size).sum := by
  induction calls generalizing b text with
  | nil => exact ⟨[], b, rfl, rfl, by simpa [succeeded] using holds, Nat.zero_le _⟩
  | cons call calls ih =>
      rw [List.map_cons, List.sum_cons] at sizes
      have here : 4 * (text.length + call.size) < sizeRange - 1 := by omega
      obtain ⟨ok, b₁, first, holds₁, length, -⟩ := appendWith_growBuffer holds here enough
      obtain ⟨oks, b₂, others, lengths, holds₂, total⟩ :=
        ih holds₁ (by rw [List.length_append]; omega)
      refine ⟨ok :: oks, b₂, ?_, congrArg Nat.succ lengths, ?_, ?_⟩
      · rw [appendAll, appendf_eq, first]
        simp [others]
      · rwa [succeeded, ← List.append_assoc]
      · rw [succeeded, List.length_append, List.map_cons, List.sum_cons]
        omega

/-- **A buffer that started empty holds the texts of the calls that succeeded**, through any
sequence of calls, reallocations that fail, and texts that cannot be formatted, whose lengths
add up to less than a quarter of the largest size. Every call ends, the growth of the buffer
included. After it the text and a zero byte lie in the allocation, if there is one. A call that
fails leaves the buffer as it was. -/
theorem appendAll_spec (writer : TextWriter) {steps : Nat} (enough : 64 ≤ steps)
    (calls : List Append) (sizes : 4 * (calls.map Append.size).sum < sizeRange - 1) :
    (∃ oks b, writer.appendAll steps .zero calls = some (oks, b) ∧ oks.length = calls.length ∧
      b.Holds (succeeded calls oks)) ∧
    ∀ before call after, calls = before ++ call :: after →
      ∃ oks b ok b', writer.appendAll steps .zero before = some (oks, b) ∧
        writer.appendf steps b call = some (ok, b') ∧
        b'.Holds (succeeded before oks ++ call.added ok) ∧
        (ok = false → b' = b ∧ (vsnprintfLength call.text < 0 ∨ call.memory = none)) := by
  have start := TextBuf.holds_zero
  constructor
  · obtain ⟨oks, b, run, lengths, holds, -⟩ :=
      writer.appendAll_holds enough calls start (by rwa [List.length_nil, Nat.zero_add])
    exact ⟨oks, b, run, lengths, holds⟩
  · rintro before call after rfl
    rw [List.map_append, List.map_cons, List.sum_append, List.sum_cons] at sizes
    obtain ⟨oks, b, run, -, holds, total⟩ :=
      writer.appendAll_holds enough before start (by rw [List.length_nil]; omega)
    rw [List.nil_append] at holds
    have here : 4 * ((succeeded before oks).length + call.size) < sizeRange - 1 := by omega
    obtain ⟨ok, b', last, holds', -, fails⟩ := appendWith_growBuffer holds here enough
    exact ⟨oks, b, ok, b', run, by rw [appendf_eq, last], holds', fails⟩

/-- There is no memory for the first text, the second and the fourth are written, and the third
cannot be formatted. -/
theorem appendAll_foobar :
    ∃ oks b, TextWriter.rtb.appendAll 64 .zero
        [⟨some [46], none⟩, ⟨some [102, 111, 111], some fun _ => 7⟩, ⟨none, none⟩,
          ⟨some [98, 97, 114], none⟩] = some (oks, b) ∧
      oks = [false, true, false, true] ∧ b.off = 6 ∧ b.cap = 256 ∧
      b.Holds [102, 111, 111, 98, 97, 114] := by
  obtain ⟨⟨oks, b, run, -, holds⟩, -⟩ := TextWriter.rtb.appendAll_spec (le_refl 64)
    [⟨some [46], none⟩, ⟨some [102, 111, 111], some fun _ => 7⟩, ⟨none, none⟩,
      ⟨some [98, 97, 114], none⟩] (by decide)
  have seen : ((TextWriter.rtb.appendAll 64 .zero
      [⟨some [46], none⟩, ⟨some [102, 111, 111], some fun _ => 7⟩, ⟨none, none⟩,
        ⟨some [98, 97, 114], none⟩]).map fun (oks, b) => (oks, b.off, b.cap)) =
      some ([false, true, false, true], 6, 256) := by decide
  rw [run] at seen
  obtain ⟨rfl, off, cap⟩ : oks = [false, true, false, true] ∧ b.off = 6 ∧ b.cap = 256 := by
    simpa using seen
  exact ⟨_, b, run, rfl, off, cap, holds⟩

end TextWriter

end Ykern.Netlink
