import Ykern.Foundation.Traced

/-!
# Owned allocations

A program that owns allocations reads them and frees them. Its trace is safe when
no allocation is touched after it was freed, which excludes freeing it twice
(`Safe`). What it holds is accounted for by a ledger: what it holds afterwards,
with what it freed, is a permutation of what it held before (`Owns`). Ledgers
compose (`Owns.trans`), and a ledger whose allocations are distinct is safe: what
is freed is no longer held, and only what is held is touched.
-/

set_option autoImplicit false

namespace Ykern

/-- An access to an allocation. -/
inductive OwnerEvent (H : Type) where
  | read (h : H)
  | free (h : H)

namespace OwnerEvent

variable {H : Type}

/-- The allocation accessed. -/
def handle : OwnerEvent H → H
  | .read h => h
  | .free h => h

/-- The allocation freed, if it is. -/
def freed? : OwnerEvent H → Option H
  | .read _ => none
  | .free h => some h

end OwnerEvent

variable {H : Type}

/-- The allocations a trace frees, in order. -/
def freed (log : List (OwnerEvent H)) : List H := log.filterMap OwnerEvent.freed?

@[simp] theorem freed_nil : freed ([] : List (OwnerEvent H)) = [] := rfl

@[simp] theorem freed_append (log log' : List (OwnerEvent H)) :
    freed (log ++ log') = freed log ++ freed log' :=
  List.filterMap_append

@[simp] theorem freed_map_free (hs : List H) : freed (hs.map .free) = hs := by
  simp [freed, List.filterMap_map, Function.comp_def, OwnerEvent.freed?]

theorem freed_reads {log : List (OwnerEvent H)} (reads : ∀ e ∈ log, ∃ h, e = .read h) :
    freed log = [] := by
  refine List.filterMap_eq_nil_iff.mpr ?_
  intro e member
  obtain ⟨h, rfl⟩ := reads e member
  rfl

/-- No allocation is touched after it was freed. -/
def Safe (log : List (OwnerEvent H)) : Prop :=
  ∀ earlier e later, log = earlier ++ e :: later → e.handle ∉ freed earlier

theorem safe_append {log log' : List (OwnerEvent H)} (first : Safe log) (second : Safe log')
    (apart : ∀ e ∈ log', e.handle ∉ freed log) : Safe (log ++ log') := by
  intro earlier e later split
  rcases List.append_eq_append_iff.mp split with ⟨between, rfl, rest⟩ | ⟨between, rest, tail⟩
  · rw [freed_append, List.mem_append]
    rintro (before | within)
    · exact apart e (by simp [rest]) before
    · exact second between e later rest within
  · cases between with
    | nil =>
        obtain rfl : log = earlier := by simpa using rest
        obtain rfl : e :: later = log' := tail
        exact apart e List.mem_cons_self
    | cons e' between =>
        obtain ⟨rfl, _⟩ := List.cons.inj tail
        exact first earlier _ between rest

theorem safe_reads {log : List (OwnerEvent H)} (reads : ∀ e ∈ log, ∃ h, e = .read h) :
    Safe log := by
  intro earlier e later split
  rw [freed_reads fun e' member => reads e' (by simp [split, member])]
  exact List.not_mem_nil

theorem safe_frees {hs : List H} (nodup : hs.Nodup) : Safe (hs.map OwnerEvent.free) := by
  intro earlier e later split member
  obtain ⟨hs', e', rfl, rfl, more⟩ := List.map_eq_append_iff.mp split
  obtain ⟨h, later', rfl, rfl, rfl⟩ := List.map_eq_cons_iff.mp more
  rw [freed_map_free] at member
  exact (List.nodup_append.mp nodup).2.2 h member h (by simp) rfl

/-- The ledger of a computation: what it held before and what it holds after. -/
structure Owns (before : List H) (log : List (OwnerEvent H)) (after : List H) : Prop where
  balance : (after ++ freed log).Perm before
  touches : ∀ e ∈ log, e.handle ∈ before
  safe : before.Nodup → Safe log

namespace Owns

variable {before between after : List H} {log log' : List (OwnerEvent H)}

theorem nothing (held : List H) : Owns held [] held :=
  ⟨by simp, by simp, fun _ => by intro earlier e later split; simp at split⟩

/-- Reading what is held. -/
theorem reads {held : List H} (reads : ∀ e ∈ log, ∃ h ∈ held, e = .read h) :
    Owns held log held := by
  have only : ∀ e ∈ log, ∃ h, e = .read h := fun e member =>
    let ⟨h, _, same⟩ := reads e member
    ⟨h, same⟩
  refine ⟨by simp [freed_reads only], ?_, fun _ => safe_reads only⟩
  intro e member
  obtain ⟨h, held', rfl⟩ := reads e member
  exact held'

/-- Freeing part of what is held. -/
theorem frees {hs : List H} (split : (after ++ hs).Perm before) :
    Owns before (hs.map .free) after := by
  refine ⟨by simpa using split, ?_, ?_⟩
  · intro e member
    obtain ⟨h, member', rfl⟩ := List.mem_map.mp member
    exact split.mem_iff.mp (List.mem_append_right _ member')
  · intro nodup
    exact safe_frees (List.nodup_append.mp (split.nodup_iff.mpr nodup)).2.1

/-- **Ledgers compose.** -/
theorem trans (first : Owns before log between) (second : Owns between log' after) :
    Owns before (log ++ log') after := by
  have balance : (after ++ freed (log ++ log')).Perm before := by
    rw [freed_append]
    calc (after ++ (freed log ++ freed log')).Perm (after ++ (freed log' ++ freed log)) :=
          List.Perm.append_left _ List.perm_append_comm
      _ = (after ++ freed log') ++ freed log := (List.append_assoc _ _ _).symm
      List.Perm _ (between ++ freed log) := second.balance.append_right _
      List.Perm _ before := first.balance
  refine ⟨balance, ?_, ?_⟩
  · intro e member
    rcases List.mem_append.mp member with member | member
    · exact first.touches e member
    · exact first.balance.mem_iff.mp (List.mem_append_left _ (second.touches e member))
  · intro nodup
    have split := List.nodup_append.mp (first.balance.nodup_iff.mpr nodup)
    refine safe_append (first.safe nodup) (second.safe split.1) ?_
    intro e member freedBefore
    exact split.2.2 e.handle (second.touches e member) e.handle freedBefore rfl

/-- A ledger that starts with a read. -/
theorem read_cons {h : H} (owns : Owns before (.read h :: log) after) :
    h ∈ before ∧ Owns before log after := by
  refine ⟨owns.touches _ List.mem_cons_self, owns.balance, ?_, ?_⟩
  · exact fun e member => owns.touches e (List.mem_cons_of_mem _ member)
  · intro nodup earlier e later split
    exact owns.safe nodup (.read h :: earlier) e later (congrArg _ split)

/-- A ledger that starts by freeing something goes on with what is left. -/
theorem free_cons {h : H} (owns : Owns before (.free h :: log) after) (nodup : before.Nodup) :
    ∃ rest, before.Perm (h :: rest) ∧ Owns rest log after := by
  have taken : before.Perm (h :: (after ++ freed log)) :=
    owns.balance.symm.trans List.perm_middle
  refine ⟨after ++ freed log, taken, .refl _, ?_, ?_⟩
  · intro e member
    obtain ⟨earlier, later, split⟩ := List.append_of_mem member
    have apart := owns.safe nodup (.free h :: earlier) e later (congrArg _ split)
    have held := taken.mem_iff.mp (owns.touches e (List.mem_cons_of_mem _ member))
    rcases List.mem_cons.mp held with rfl | left
    · exact absurd List.mem_cons_self apart
    · exact left
  · intro _ earlier e later split member
    refine owns.safe nodup (.free h :: earlier) e later (congrArg _ split) ?_
    exact List.mem_cons_of_mem _ member

/-- What was distinct is freed at most once. -/
theorem freed_nodup (owns : Owns before log after) (nodup : before.Nodup) : (freed log).Nodup :=
  (List.nodup_append.mp (owns.balance.nodup_iff.mpr nodup)).2.1

/-- What was held once is held once or was freed once. -/
theorem count_add_count [DecidableEq H] (owns : Owns before log after) (nodup : before.Nodup)
    {h : H} (member : h ∈ before) : after.count h + (freed log).count h = 1 := by
  rw [← List.count_append, owns.balance.count_eq, List.count_eq_one_of_mem nodup member]

end Owns

end Ykern
