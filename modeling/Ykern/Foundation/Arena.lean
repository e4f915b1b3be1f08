import Mathlib.Data.Multiset.AddSub
import Mathlib.Data.Multiset.UnionInter
import Ykern.Foundation.Ownership

/-!
# Programs that ask for memory and give it back

An arena hands out blocks, and a request may be refused. A program over an arena is stuck when
it touches or gives back a block that is not handed out, so a program that comes to an end has
freed nothing twice and used nothing after it was freed.

What a program does is said of the blocks it holds (`Does`): whatever else is handed out, it
comes to an end and leaves that as it is. This is the frame rule built into the definition, so
that the rules for the steps of a program only mention what the step is about, and the rest of
what is held is carried along (`Does.malloc_then`, `Does.free_then`, `Does.call_then`).

A ledger of accesses (`Owns`) is such a program (`Does.perform`).
-/

set_option autoImplicit false

namespace Ykern

/-- What is handed out and given back: a block of memory, an open file. -/
abbrev Block := Nat

/-- The blocks that are handed out, the number of requests so far, and which of them are
granted. -/
structure Arena where
  live : Multiset Block
  next : Nat
  grants : Nat → Bool

/-- No block is handed out twice, and the next one is new. -/
structure Arena.Sound (s : Arena) : Prop where
  distinct : s.live.Nodup
  old : ∀ b ∈ s.live, b < s.next

/-- A program over an arena. -/
abbrev Alloc := StateT Arena Option

namespace Alloc

/-- A step that C does not define. -/
def stuck {α : Type} : Alloc α := fun _ => none

/-- Ask for a block. -/
def malloc : Alloc (Option Block) := fun s =>
  if s.grants s.next then
    some (some s.next, { s with live := s.next ::ₘ s.live, next := s.next + 1 })
  else some (none, { s with next := s.next + 1 })

/-- Read or write a block. -/
def touch (b : Block) : Alloc Unit := fun s => if b ∈ s.live then some ((), s) else none

/-- Read or write what a pointer leads to. -/
def deref : Option Block → Alloc Unit
  | none => stuck
  | some b => touch b

/-- `free`: give a block back. `NULL` is none. -/
def freeBlock : Option Block → Alloc Unit
  | none => pure ()
  | some b => fun s => if b ∈ s.live then some ((), { s with live := s.live.erase b }) else none

/-- Ask for a block instead of one that is held. When it is refused, that one is still held. -/
def realloc : Option Block → Alloc (Option Block)
  | none => malloc
  | some b => fun s =>
      if b ∈ s.live then
        if s.grants s.next then
          some (some s.next, { s with live := s.next ::ₘ s.live.erase b, next := s.next + 1 })
        else some (none, { s with next := s.next + 1 })
      else none

/-- Perform the accesses of a trace. -/
def perform {H : Type} (handle : H → Block) : List (OwnerEvent H) → Alloc Unit
  | [] => pure ()
  | .read h :: log => do
      touch (handle h)
      perform handle log
  | .free h :: log => do
      freeBlock (some (handle h))
      perform handle log

/-- A traced computation, with its accesses. -/
def ofTraced {H α : Type} (handle : H → Block) (x : Traced (OwnerEvent H) α) : Alloc α := do
  perform handle x.log
  pure x.val

end Alloc

/-- Some request is refused. -/
def Refuses (grants : Nat → Bool) : Prop := ∃ n, grants n = false

/-! ## What is held -/

/-- Values that hold blocks. -/
class Holder (α : Type) where
  blocks : α → Multiset Block

namespace Holder

variable {α : Type} [Holder α]

instance : Holder Block where
  blocks b := {b}

instance : Holder (Option α) where
  blocks a := (a.map blocks).getD 0

instance : Holder (List α) where
  blocks as := (as.map blocks).sum

@[simp] theorem blocks_block (b : Block) : blocks b = {b} := rfl

@[simp] theorem blocks_none : blocks (none : Option α) = 0 := rfl

@[simp] theorem blocks_some (a : α) : blocks (some a) = blocks a := rfl

@[simp] theorem blocks_nil : blocks ([] : List α) = 0 := rfl

@[simp] theorem blocks_cons (a : α) (as : List α) : blocks (a :: as) = blocks a + blocks as :=
  List.sum_cons

@[simp] theorem blocks_append (as bs : List α) : blocks (as ++ bs) = blocks as + blocks bs := by
  simp only [blocks, List.map_append, List.sum_append]

end Holder

open Holder

/-! ## What a program does -/

/-- **What a program does with the blocks it holds**, when requests are granted like this.
Whatever else is handed out, the program comes to an end and leaves that as it is, and its result
and what it holds then are as stated. -/
def Does {α : Type} (grants : Nat → Bool) (held : Multiset Block) (prog : Alloc α)
    (post : α → Multiset Block → Prop) : Prop :=
  ∀ (s : Arena) (others : Multiset Block), s.Sound → s.grants = grants → s.live = held + others →
    ∃ a s' held', prog s = some (a, s') ∧ s'.Sound ∧ s'.grants = grants ∧
      s'.live = held' + others ∧ post a held'

namespace Does

variable {α β : Type} {grants : Nat → Bool} {held part more : Multiset Block} {x : Alloc α}
  {f : α → Alloc β} {mid post : α → Multiset Block → Prop} {final : β → Multiset Block → Prop}

theorem mono (does : Does grants held x mid) (weaker : ∀ a held', mid a held' → post a held') :
    Does grants held x post := by
  intro s others sound same live
  obtain ⟨a, s', held', ran, sound', same', live', holds⟩ := does s others sound same live
  exact ⟨a, s', held', ran, sound', same', live', weaker a held' holds⟩

theorem pure {a : α} (holds : post a held) : Does grants held (Pure.pure a) post :=
  fun s _ sound same live => ⟨a, s, held, rfl, sound, same, live, holds⟩

/-- One program after the other. -/
theorem bind (first : Does grants held x mid)
    (second : ∀ a held', mid a held' → Does grants held' (f a) final) :
    Does grants held (x >>= f) final := by
  intro s others sound same live
  obtain ⟨a, s₁, held₁, ran₁, sound₁, same₁, live₁, holds₁⟩ := first s others sound same live
  obtain ⟨b, s₂, held₂, ran₂, sound₂, same₂, live₂, holds₂⟩ :=
    second a held₁ holds₁ s₁ others sound₁ same₁ live₁
  refine ⟨b, s₂, held₂, ?_, sound₂, same₂, live₂, holds₂⟩
  calc (x >>= f) s = (x s).bind fun p => f p.1 p.2 := rfl
    _ = some (b, s₂) := by rw [ran₁, Option.bind_some, ran₂]

/-- What is held besides stays. -/
theorem frame (does : Does grants part x mid) (more : Multiset Block) :
    Does grants (part + more) x fun a held' => ∃ left, held' = left + more ∧ mid a left := by
  intro s others sound same live
  obtain ⟨a, s', left, ran, sound', same', live', holds⟩ :=
    does s (more + others) sound same (by rw [live, add_assoc])
  exact ⟨a, s', left + more, ran, sound', same', by rw [live', add_assoc], left, rfl, holds⟩

/-- A call that is about part of what is held. -/
theorem call_then (call : Does grants part x mid) (split : held = part + more)
    (rest : ∀ a left, mid a left → Does grants (left + more) (f a) final) :
    Does grants held (x >>= f) final := by
  subst split
  refine (call.frame more).bind ?_
  rintro a _ ⟨left, rfl, holds⟩
  exact rest a left holds

/-! ## Steps -/

theorem malloc : Does grants 0 Alloc.malloc fun p held' =>
    held' = blocks p ∧ (p = none → Refuses grants) := by
  intro s others sound same live
  rw [zero_add] at live
  cases granted : s.grants s.next with
  | true =>
      have new : s.next ∉ s.live := fun member => Nat.lt_irrefl _ (sound.old _ member)
      refine ⟨some s.next, _, {s.next}, if_pos granted, ⟨?_, ?_⟩, same, ?_, rfl, nofun⟩
      · exact Multiset.nodup_cons.mpr ⟨new, sound.distinct⟩
      · intro b member
        rcases Multiset.mem_cons.mp member with rfl | older
        · exact Nat.lt_succ_self _
        · exact Nat.lt_succ_of_lt (sound.old b older)
      · rw [live, Multiset.singleton_add]
  | false =>
      refine ⟨none, _, 0, if_neg (by simp [granted]), ⟨sound.distinct, ?_⟩, same, ?_, rfl, ?_⟩
      · exact fun b member => Nat.lt_succ_of_lt (sound.old b member)
      · rw [zero_add, live]
      · exact fun _ => ⟨s.next, same ▸ granted⟩

theorem touch {b : Block} (member : b ∈ held) :
    Does grants held (Alloc.touch b) fun _ held' => held' = held := by
  intro s others sound same live
  have isLive : b ∈ s.live := live ▸ Multiset.mem_add.mpr (.inl member)
  exact ⟨(), s, held, if_pos isLive, sound, same, live, rfl⟩

theorem freeBlock (p : Option Block) :
    Does grants (blocks p) (Alloc.freeBlock p) fun _ held' => held' = 0 := by
  cases p with
  | none => exact pure rfl
  | some b =>
      intro s others sound same live
      have isLive : b ∈ s.live := by
        rw [live, blocks_some, blocks_block]
        exact Multiset.mem_add.mpr (.inl (Multiset.mem_singleton_self b))
      refine ⟨(), _, 0, if_pos isLive, ⟨?_, ?_⟩, same, ?_, rfl⟩
      · exact sound.distinct.erase b
      · exact fun b' member => sound.old b' (Multiset.mem_of_mem_erase member)
      · rw [live, blocks_some, blocks_block, Multiset.singleton_add, Multiset.erase_cons_head,
          zero_add]

theorem realloc (p : Option Block) : Does grants (blocks p) (Alloc.realloc p) fun q held' =>
    held' = blocks (q.orElse fun _ => p) ∧ (q = none → Refuses grants) := by
  cases p with
  | none =>
      refine malloc.mono ?_
      rintro q _ ⟨rfl, refused⟩
      cases q with
      | none => exact ⟨rfl, refused⟩
      | some b => exact ⟨rfl, nofun⟩
  | some b =>
      -- A reallocation is a request, after which the old block is given back.
      intro s others sound same live
      have isLive : b ∈ s.live := by
        rw [live, blocks_some, blocks_block]
        exact Multiset.mem_add.mpr (.inl (Multiset.mem_singleton_self b))
      have left : s.live.erase b = others := by
        rw [live, blocks_some, blocks_block, Multiset.singleton_add, Multiset.erase_cons_head]
      cases granted : s.grants s.next with
      | true =>
          have new : s.next ∉ s.live.erase b := fun member =>
            Nat.lt_irrefl _ (sound.old _ (Multiset.mem_of_mem_erase member))
          refine ⟨some s.next, _, {s.next}, (if_pos isLive).trans (if_pos granted), ⟨?_, ?_⟩, same,
            ?_, rfl, nofun⟩
          · exact Multiset.nodup_cons.mpr ⟨new, sound.distinct.erase b⟩
          · intro b' member
            rcases Multiset.mem_cons.mp member with rfl | older
            · exact Nat.lt_succ_self _
            · exact Nat.lt_succ_of_lt (sound.old b' (Multiset.mem_of_mem_erase older))
          · show s.next ::ₘ s.live.erase b = _
            rw [left, Multiset.singleton_add]
      | false =>
          refine ⟨none, _, blocks (some b), (if_pos isLive).trans (if_neg (by simp [granted])),
            ⟨sound.distinct, ?_⟩, same, live, rfl, fun _ => ⟨s.next, same ▸ granted⟩⟩
          exact fun b' member => Nat.lt_succ_of_lt (sound.old b' member)

/-! ## Steps in front of a program -/

variable {p : Option Block}

theorem malloc_then {f : Option Block → Alloc β}
    (rest : ∀ p : Option Block, (p = none → Refuses grants) →
      Does grants (blocks p + held) (f p) final) :
    Does grants held (Alloc.malloc >>= f) final := by
  refine malloc.call_then (zero_add held).symm ?_
  rintro p _ ⟨rfl, refused⟩
  exact rest p refused

theorem touch_then {b : Block} {f : Unit → Alloc β} (member : b ∈ held)
    (rest : Does grants held (f ()) final) : Does grants held (Alloc.touch b >>= f) final := by
  refine (touch member).bind ?_
  rintro ⟨⟩ _ rfl
  exact rest

theorem deref_then {f : Unit → Alloc β} {b : Block} (is : p = some b) (member : b ∈ held)
    (rest : Does grants held (f ()) final) : Does grants held (Alloc.deref p >>= f) final := by
  subst is
  exact touch_then member rest

theorem free_then {f : Unit → Alloc β} (split : held = blocks p + more)
    (rest : Does grants more (f ()) final) : Does grants held (Alloc.freeBlock p >>= f) final := by
  refine (freeBlock p).call_then split ?_
  rintro ⟨⟩ _ rfl
  rwa [zero_add]

theorem realloc_then {f : Option Block → Alloc β} (split : held = blocks p + more)
    (rest : ∀ q : Option Block, (q = none → Refuses grants) →
      Does grants (blocks (q.orElse fun _ => p) + more) (f q) final) :
    Does grants held (Alloc.realloc p >>= f) final := by
  refine (realloc p).call_then split ?_
  rintro q _ ⟨rfl, refused⟩
  exact rest q refused

/-- A loop over a list that gives back what each item holds. -/
theorem forM {γ : Type} [Holder γ] {body : γ → Alloc Unit} (items : List γ)
    (each : ∀ item ∈ items,
      Does grants (blocks item + more) (body item) fun _ held' => held' = more) :
    Does grants (blocks items + more) (items.forM body) fun _ held' => held' = more := by
  induction items with
  | nil => exact pure (zero_add more)
  | cons item items ih =>
      refine (each item List.mem_cons_self).call_then
        (show blocks (item :: items) + more = blocks item + more + blocks items by
          rw [blocks_cons, add_right_comm]) ?_
      rintro ⟨⟩ _ rfl
      rw [add_comm]
      exact ih fun other member => each other (List.mem_cons_of_mem _ member)

/-! ## Ledgers -/

/-- What is held is distinct. -/
theorem of_nodup (does : held.Nodup → Does grants held x post) : Does grants held x post := by
  intro s others sound same live
  exact does (Multiset.nodup_add.mp (live ▸ sound.distinct)).1 s others sound same live

/-- **A ledger is kept** by a program that performs its accesses. -/
theorem perform {H : Type} (handle : H → Block) {before after : List H}
    {log : List (OwnerEvent H)} (owns : Owns before log after) :
    Does grants (before.map handle : List Block) (Alloc.perform handle log) fun _ held' =>
      held' = (after.map handle : List Block) := by
  induction log generalizing before with
  | nil =>
      have same : after.Perm before := by simpa using owns.balance
      exact pure (Multiset.coe_eq_coe.mpr (same.symm.map handle))
  | cons e log ih =>
      refine of_nodup fun nodup => ?_
      have distinct : before.Nodup := (Multiset.coe_nodup.mp nodup).of_map handle
      cases e with
      | read h =>
          obtain ⟨member, later⟩ := owns.read_cons
          exact touch_then (Multiset.mem_coe.mpr (List.mem_map_of_mem member)) (ih later)
      | free h =>
          obtain ⟨rest, taken, later⟩ := owns.free_cons distinct
          refine free_then ?_ (ih later)
          rw [blocks_some, blocks_block, Multiset.singleton_add, Multiset.cons_coe]
          exact Multiset.coe_eq_coe.mpr (taken.map handle)

/-- A traced computation keeps its ledger. -/
theorem ofTraced {H : Type} (handle : H → Block) {before after : List H}
    {x : Traced (OwnerEvent H) α} (owns : Owns before x.log after) :
    Does grants (before.map handle : List Block) (Alloc.ofTraced handle x) fun a held' =>
      a = x.val ∧ held' = (after.map handle : List Block) := by
  refine (perform handle owns).bind ?_
  rintro ⟨⟩ _ rfl
  exact pure ⟨rfl, rfl⟩

end Does

end Ykern
