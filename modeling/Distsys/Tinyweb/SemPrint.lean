import Mathlib.Data.Finset.Card
import Mathlib.Logic.Function.Basic
import Distsys.Lib.System

/-! The access log under its semaphore (`src/sem_print.c`): any number of processes in `print_log`. A
    `sem_wait` that fails is reported, and the process goes on as if it had the semaphore. -/

namespace Distsys.Tinyweb

/-- Where a process is in `print_log`. -/
inductive LogPosition where
  | outside
  /-- Behind `sem_wait`, whether it failed or not. -/
  | entered
  /-- Behind `vfprintf`. -/
  | printed
  deriving DecidableEq, Repr

/-- The largest value of a semaphore. -/
def SEM_VALUE_MAX : Nat := 0x7FFFFFFF

/-- The value of the semaphore, the processes, and whose messages the log has. -/
structure LogState (ι : Type) where
  value : Nat
  position : ι → LogPosition
  log : List ι

/-- The calls of `print_log`. -/
inductive LogAction (ι : Type) where
  | semWait (i : ι)
  /-- `sem_wait` returns -1, as it does when a signal interrupts it. -/
  | semWaitFails (i : ι)
  | print (i : ι)
  | semPost (i : ι)

section Logging
variable {ι : Type} [DecidableEq ι]

/-- A process goes on. -/
def LogState.move (s : LogState ι) (i : ι) (p : LogPosition) : LogState ι :=
  { s with position := Function.update s.position i p }

/-- `sem_open` makes the semaphore with the value 1 when there is none of its name. It is never unlinked, so a later run
    starts with the value that an earlier one left. `sem_post` fails at the largest value, and leaves it. -/
def logSystem (ι : Type) [DecidableEq ι] (start : Nat) : System (LogState ι) (LogAction ι) where
  init := ⟨start, fun _ => .outside, []⟩
  enabled
    | s, .semWait i => s.position i = .outside ∧ 0 < s.value
    | s, .semWaitFails i => s.position i = .outside
    | s, .print i => s.position i = .entered
    | s, .semPost i => s.position i = .printed
  next
    | s, .semWait i => { s.move i .entered with value := s.value - 1 }
    | s, .semWaitFails i => s.move i .entered
    | s, .print i => { s.move i .printed with log := s.log ++ [i] }
    | s, .semPost i => { s.move i .outside with value := if s.value < SEM_VALUE_MAX then s.value + 1 else s.value }

instance (start : Nat) (s : LogState ι) : ∀ a, Decidable ((logSystem ι start).enabled s a)
  | .semWait _ => inferInstanceAs (Decidable (_ ∧ _))
  | .semWaitFails _ | .print _ | .semPost _ => inferInstanceAs (Decidable (_ = _))

/-- Between `sem_wait` and `sem_post`. -/
def LogState.Inside (s : LogState ι) (i : ι) : Prop := s.position i ≠ .outside

instance (s : LogState ι) (i : ι) : Decidable (s.Inside i) := inferInstanceAs (Decidable (_ ≠ _))

/-- At most one process is inside, and the semaphore is free when none is. -/
structure LogState.Exclusive (s : LogState ι) : Prop where
  unique : ∀ i j, s.Inside i → s.Inside j → i = j
  free : (∀ i, ¬s.Inside i) → s.value = 1

/-- The call is a `sem_wait` that fails. -/
def LogAction.isFailure : LogAction ι → Bool
  | .semWaitFails _ => true
  | _ => false

/-- The step is no failure of `sem_wait`. -/
def Succeeds (_ : LogState ι) (a : LogAction ι) : Prop := a.isFailure = false

instance (s : LogState ι) (a : LogAction ι) : Decidable (Succeeds s a) := inferInstanceAs (Decidable (_ = _))

/-! ### Runs without a failure -/

/-- The semaphore is free, or one process has it. -/
inductive LogState.Held (s : LogState ι) : Prop
  | free (value : s.value = 1) (outside : ∀ j, s.position j = .outside)
  | one (i : ι) (value : s.value = 0) (inside : s.Inside i) (others : ∀ j, j ≠ i → s.position j = .outside)

variable {start : Nat} {s : LogState ι} {a : LogAction ι} {i : ι} {p : LogPosition}

theorem LogState.Held.holder (h : s.Held) (hi : s.Inside i) : s.value = 0 ∧ ∀ j, j ≠ i → s.position j = .outside := by
  cases h with
  | free value outside => exact absurd (outside i) hi
  | one k value inside others =>
    obtain rfl : i = k := by
      by_contra hne
      exact hi (others i hne)
    exact ⟨value, others⟩

theorem move_position_of_ne {j : ι} (h : j ≠ i) : (s.move i p).position j = s.position j := Function.update_of_ne h _ _

theorem move_position_self : (s.move i p).position i = p := Function.update_self _ _ _

theorem LogState.Held.next (h : s.Held) (he : (logSystem ι start).enabled s a) (ho : Succeeds s a) :
    ((logSystem ι start).next s a).Held := by
  cases a with
  | semWait i =>
    cases h with
    | free value outside =>
      refine .one i ?_ ?_ fun j hj => ?_
      · show s.value - 1 = 0
        rw [value]
      · show (s.move i .entered).position i ≠ .outside
        rw [move_position_self]
        exact nofun
      · exact (move_position_of_ne hj).trans (outside j)
    | one k value inside others => exact absurd value (Nat.ne_of_gt he.2)
  | semWaitFails i => cases ho
  | print i =>
    have hi : s.Inside i := fun h => nomatch h.symm.trans he
    obtain ⟨hvalue, others⟩ := h.holder hi
    refine .one i hvalue ?_ fun j hj => (move_position_of_ne hj).trans (others j hj)
    show (s.move i .printed).position i ≠ .outside
    rw [move_position_self]
    exact nofun
  | semPost i =>
    have hi : s.Inside i := fun h => nomatch h.symm.trans he
    obtain ⟨hvalue, others⟩ := h.holder hi
    refine .free ?_ fun j => ?_
    · show (if s.value < SEM_VALUE_MAX then s.value + 1 else s.value) = 1
      rw [hvalue]
      rfl
    · by_cases hj : j = i
      · subst hj
        exact move_position_self
      · exact (move_position_of_ne hj).trans (others j hj)

theorem LogState.Held.exclusive (h : s.Held) : s.Exclusive := by
  refine ⟨fun i j hi hj => ?_, fun hnone => ?_⟩
  · by_contra hne
    exact hi ((h.holder hj).2 i hne)
  · cases h with
    | free value outside => exact value
    | one k value inside others => exact absurd inside (hnone k)

end Logging

/-- As long as no `sem_wait` fails, `print_log` is exclusive and gives the semaphore back. -/
theorem exclusive_of_succeeds {ι : Type} [DecidableEq ι] {s : LogState ι} (h : (logSystem ι 1).ReachesBy Succeeds s) :
    s.Exclusive :=
  (h.invariant (.free rfl fun _ => rfl) fun _ _ hs he ho => LogState.Held.next hs he ho).exclusive

theorem exclusive_of_succeeds_example :
    ((logSystem Nat 1).after [.semWait 1, .print 1, .semPost 1, .semWait 2]).Exclusive :=
  exclusive_of_succeeds (System.reachesBy_after (by decide))

/-- One process has the semaphore, and the `sem_wait` of another is interrupted. -/
def interrupted : List (LogAction Bool) := [.semWait true, .semWaitFails false]

/-- Both go on to `sem_post`. -/
def bothPost : List (LogAction Bool) := interrupted ++ [.print false, .semPost false, .print true, .semPost true]

/-- Two processes are inside; and once both have left, the value is 2. -/
theorem interrupted_not_exclusive : ¬(∀ s, (logSystem Bool 1).Reaches s → s.Exclusive) ∧
    ((logSystem Bool 1).after bothPost).value = 2 := by
  refine ⟨fun h => ?_, by decide⟩
  have hrun : (logSystem Bool 1).Reaches ((logSystem Bool 1).after interrupted) := System.reachesBy_after (by decide)
  exact absurd ((h _ hrun).unique true false (by decide) (by decide)) (by decide)

/-! ### Runs with failures -/

section Failures
variable {ι : Type} [DecidableEq ι] {s t : LogState ι} {a : LogAction ι} {i : ι} {inside : Finset ι} {start fails : Nat}

/-- The processes inside, and a value that is too large by the waits that failed. -/
structure LogState.Accounted (s : LogState ι) (start : Nat) (inside : Finset ι) (fails : Nat) : Prop where
  mem_iff : ∀ i, i ∈ inside ↔ s.Inside i
  value : s.value + inside.card = start + fails

theorem accounted_init (start : Nat) : (logSystem ι start).init.Accounted start ∅ 0 where
  mem_iff i := iff_of_false (Finset.notMem_empty i) (not_not.mpr rfl)
  value := rfl

theorem inside_move_of_ne {p : LogPosition} {j : ι} (hj : j ≠ i) : (s.move i p).Inside j ↔ s.Inside j := by
  rw [LogState.Inside, move_position_of_ne hj, LogState.Inside]

/-- A process that comes in. -/
theorem mem_insert_iff (h : s.Accounted start inside fails) (j : ι) :
    j ∈ insert i inside ↔ (s.move i .entered).Inside j := by
  rw [Finset.mem_insert]
  by_cases hj : j = i
  · subst hj
    have hin : (s.move j .entered).Inside j := by
      rw [LogState.Inside, move_position_self]
      exact nofun
    exact iff_of_true (Or.inl rfl) hin
  · rw [inside_move_of_ne hj, h.mem_iff j]
    exact or_iff_right hj

theorem card_insert (h : s.Accounted start inside fails) (hi : s.position i = .outside) :
    (insert i inside).card = inside.card + 1 :=
  Finset.card_insert_of_notMem fun hmem => (h.mem_iff i).mp hmem hi

/-- A step that does not fail keeps the sum, and a wait that fails adds to it. -/
theorem LogState.Accounted.next (h : s.Accounted start inside fails) (hmax : start + fails ≤ SEM_VALUE_MAX)
    (he : (logSystem ι start).enabled s a) :
    ∃ inside', ((logSystem ι start).next s a).Accounted start inside' (fails + if a.isFailure then 1 else 0) := by
  have hvalue := h.value
  cases a with
  | semWait i =>
    obtain ⟨hi, hpos⟩ := he
    refine ⟨insert i inside, mem_insert_iff h, ?_⟩
    show s.value - 1 + (insert i inside).card = start + fails
    rw [card_insert h hi]
    omega
  | semWaitFails i =>
    refine ⟨insert i inside, mem_insert_iff h, ?_⟩
    show s.value + (insert i inside).card = start + (fails + 1)
    rw [card_insert h he]
    omega
  | print i =>
    refine ⟨inside, fun j => ?_, hvalue⟩
    show j ∈ inside ↔ (s.move i .printed).Inside j
    by_cases hj : j = i
    · subst hj
      have hentered : s.position j = .entered := he
      rw [h.mem_iff, Inside, Inside, move_position_self, hentered]
      exact iff_of_true nofun nofun
    · rw [inside_move_of_ne hj, h.mem_iff]
  | semPost i =>
    have hprinted : s.position i = .printed := he
    have hmem : i ∈ inside := (h.mem_iff i).mpr fun hout => nomatch hout.symm.trans hprinted
    have hcard := Finset.card_erase_of_mem hmem
    have hpos := Finset.card_pos.mpr ⟨i, hmem⟩
    refine ⟨inside.erase i, fun j => ?_, ?_⟩
    · show j ∈ inside.erase i ↔ (s.move i .outside).Inside j
      by_cases hj : j = i
      · subst hj
        rw [Inside, move_position_self]
        exact iff_of_false (Finset.notMem_erase j inside) (not_not.mpr rfl)
      · rw [Finset.mem_erase, inside_move_of_ne hj, h.mem_iff]
        exact and_iff_right hj
    · show (if s.value < SEM_VALUE_MAX then s.value + 1 else s.value) + (inside.erase i).card = start + fails
      -- Somebody is inside, so the value is below its largest.
      rw [if_pos (by omega), hcard]
      omega

end Failures

/-- In every run each wait that failed lets one more process in, for good: the value and the number of processes inside
    come to what the run started with and the waits that failed. -/
theorem semaphore_drift {ι : Type} [DecidableEq ι] {start : Nat} {as : List (LogAction ι)}
    (h : (logSystem ι start).Allows (fun _ _ => True) (logSystem ι start).init as)
    (hmax : start + as.countP LogAction.isFailure ≤ SEM_VALUE_MAX) :
    ∃ inside : Finset ι, (∀ i, i ∈ inside ↔ ((logSystem ι start).after as).Inside i) ∧
      ((logSystem ι start).after as).value + inside.card = start + as.countP LogAction.isFailure := by
  have haccounted : ∃ inside, ((logSystem ι start).after as).Accounted start inside
      (as.countP LogAction.isFailure) := by
    refine System.after_invariant (Q := fun (s : LogState ι) taken =>
      start + taken.countP LogAction.isFailure ≤ SEM_VALUE_MAX →
      ∃ inside, s.Accounted start inside (taken.countP LogAction.isFailure)) ?_ ?_ h hmax
    · exact fun _ => ⟨∅, accounted_init start⟩
    · intro s taken a hs he _ hle
      rw [List.countP_append, List.countP_singleton] at hle ⊢
      have htaken : start + taken.countP LogAction.isFailure ≤ SEM_VALUE_MAX := by omega
      obtain ⟨inside, haccounted⟩ := hs htaken
      exact haccounted.next htaken he
  obtain ⟨inside, hmem, hvalue⟩ := haccounted
  exact ⟨inside, hmem, hvalue⟩

/-- The wait of one process is interrupted; then two processes are inside at once without a failure. -/
def twoInside : List (LogAction Nat) := [.semWaitFails 1, .print 1, .semPost 1, .semWait 2, .semWait 3]

theorem semaphore_drift_example : ∃ inside : Finset Nat, (∀ i, i ∈ inside ↔
    ((logSystem Nat 1).after twoInside).Inside i) ∧
    ((logSystem Nat 1).after twoInside).value + inside.card = 1 + twoInside.countP LogAction.isFailure :=
  semaphore_drift (by decide) (by decide)

end Distsys.Tinyweb
