import Monios.Model.Scheduler

/-!
# The choice of the scheduler

The loop of `scheduler_pick_next` keeps the best process so far, with a tie-break on the slots that
does not touch its priority. Started at a priority `start` it finds a process of maximal priority
among those that exceed `start`, and none exactly when no process does (`schedulerPickFrom_spec`),
so it is right when every process that may be chosen exceeds `start` (`pickCorrect_from_iff`).
-/

set_option autoImplicit false

namespace Monios.Analysis.SchedulerChoice

open Monios.Model Monios.Model.ProcTable Monios.Model.Scheduler

structure Ready (s : Sched) (i : Fin 64) : Prop where
  used : (s.table.pcbs i).used = true
  ready : (s.table.pcbs i).state = .ready
  other : ¬ (0 ≤ s.table.currentPid ∧ ((s.table.pcbs i).pid : Int) = s.table.currentPid)

structure PickCorrect (s : Sched) (choice : Option (Fin 64)) : Prop where
  none_iff : choice = none ↔ ∀ i, ¬ Ready s i
  maximal : ∀ i, choice = some i → Ready s i ∧ ∀ j, Ready s j → (s.table.pcbs j).priority ≤ (s.table.pcbs i).priority

def SliceExpires (s : Sched) : Prop :=
  s.preemptiveEnabled = true ∧ ∃ cur, ProcTable.pcbGetCurrent s.table = some cur ∧ (s.table.pcbs cur).remainingTicks ≤ 1

def TickCorrect (s : Sched) : Prop := SliceExpires s → (∃ i, Ready s i) → (schedulerTick s).1 = true

structure Words (s : Sched) : Prop where
  priority : ∀ i, (s.table.pcbs i).priority < 2 ^ 32

def Considered (s : Sched) (i : Fin 64) : Prop :=
  (s.table.pcbs i).used = true ∧ (s.table.pcbs i).state = .ready ∧ (s.table.pcbs i).pid ≠ schedulerCurrentPid s

inductive Best (s : Sched) (start : Nat) (seen : List (Fin 64)) : Option (Fin 64) × Nat → Prop
  | nothing (h : ∀ i ∈ seen, Considered s i → (s.table.pcbs i).priority ≤ start) : Best s start seen (none, start)
  | process (i : Fin 64) (hi : Considered s i) (hstart : start < (s.table.pcbs i).priority)
      (hmax : ∀ j ∈ seen, Considered s j → (s.table.pcbs j).priority ≤ (s.table.pcbs i).priority) :
      Best s start seen (some i, (s.table.pcbs i).priority)

variable {s : Sched} {start : Nat} {seen : List (Fin 64)} {best : Option (Fin 64) × Nat}

theorem forall_mem_snoc {P : Fin 64 → Prop} {i : Fin 64} (h : ∀ j ∈ seen, P j) (hi : P i) :
    ∀ j ∈ seen ++ [i], P j := by
  intro j hj
  rcases List.mem_append.mp hj with hj | hj
  · exact h j hj
  · rw [List.mem_singleton.mp hj]
    exact hi

theorem Best.keep (h : Best s start seen best) {i : Fin 64}
    (hi : Considered s i → (s.table.pcbs i).priority ≤ best.2) :
    Best s start (seen ++ [i]) best := by
  cases h with
  | nothing h => exact .nothing (forall_mem_snoc h hi)
  | process b hb hstart hmax => exact .process b hb hstart (forall_mem_snoc hmax hi)

theorem Best.replace (h : Best s start seen best) {i : Fin 64} (hi : Considered s i)
    (hbetter : best.2 < (s.table.pcbs i).priority) :
    Best s start (seen ++ [i]) (some i, (s.table.pcbs i).priority) := by
  cases h with
  | nothing h =>
    refine .process i hi hbetter (forall_mem_snoc (fun j hj hc => ?_) fun _ => Nat.le_refl _)
    exact Nat.le_trans (h j hj hc) (Nat.le_of_lt hbetter)
  | process b hb hstart hmax =>
    refine .process i hi (Nat.lt_trans hstart hbetter) (forall_mem_snoc (fun j hj hc => ?_) fun _ => Nat.le_refl _)
    exact Nat.le_trans (hmax j hj hc) (Nat.le_of_lt hbetter)

theorem Best.tie {b i : Fin 64} {priority : Nat} (h : Best s start seen (some b, priority))
    (hi : Considered s i) (htie : (s.table.pcbs i).priority = priority) :
    Best s start (seen ++ [i]) (some i, priority) := by
  subst htie
  generalize hp : (s.table.pcbs i).priority = priority at h
  cases h with
  | process b hb hstart hmax =>
    rw [← hp]
    refine .process i hi (hp ▸ hstart) (forall_mem_snoc (fun j hj hc => ?_) fun _ => Nat.le_refl _)
    rw [hp]
    exact hmax j hj hc

theorem Best.consider (h : Best s start seen best) (i : Fin 64) :
    Best s start (seen ++ [i]) (schedulerConsider s best i) := by
  simp only [schedulerConsider]
  by_cases hskip : (!(s.table.pcbs i).used) = true ∨ (s.table.pcbs i).state ≠ .ready
  · rw [if_pos hskip]
    refine h.keep fun hc => absurd hskip ?_
    simp [hc.1, hc.2.1]
  rw [if_neg hskip]
  by_cases hcurrent : (s.table.pcbs i).pid = schedulerCurrentPid s
  · rw [if_pos hcurrent]
    exact h.keep fun hc => absurd hcurrent hc.2.2
  rw [if_neg hcurrent]
  have hi : Considered s i := by
    simp only [Bool.not_eq_eq_eq_not, Bool.not_true, not_or, Bool.not_eq_false, ne_eq,
      Decidable.not_not] at hskip
    exact ⟨hskip.1, hskip.2, hcurrent⟩
  by_cases hbetter : best.2 < (s.table.pcbs i).priority
  · rw [if_pos hbetter]
    exact h.replace hi hbetter
  rw [if_neg hbetter]
  have hkeep := h.keep fun _ => Nat.le_of_not_lt hbetter
  obtain ⟨process, priority⟩ := best
  cases process with
  | none => exact hkeep
  | some b =>
    dsimp only
    split
    · next htie => exact h.tie hi htie.1
    · exact hkeep

theorem schedulerPickFrom_spec (s : Sched) (start : Nat) :
    Best s start (List.finRange 64) (schedulerPickFrom start s) := by
  have hloop (slots : List (Fin 64)) : ∀ (seen : List (Fin 64)) (best : Option (Fin 64) × Nat),
      Best s start seen best → Best s start (seen ++ slots) (slots.foldl (schedulerConsider s) best) := by
    induction slots with
    | nil =>
      intro seen best h
      rw [List.append_nil]
      exact h
    | cons i slots ih =>
      intro seen best h
      rw [List.append_cons]
      exact ih _ _ (h.consider i)
  exact hloop _ [] _ (.nothing (by simp))

theorem schedulerPickFrom_eq_none_iff (s : Sched) (start : Nat) :
    (schedulerPickFrom start s).1 = none ↔ ∀ i, Considered s i →
      (s.table.pcbs i).priority ≤ start := by
  have hspec := schedulerPickFrom_spec s start
  generalize schedulerPickFrom start s = best at hspec
  cases hspec with
  | nothing h => simpa using h
  | process i hi hstart hmax => simpa using ⟨i, hi, hstart⟩

theorem schedulerPickNext_eq_none (hwords : Words s) : schedulerPickNext s = none := by
  apply (schedulerPickFrom_eq_none_iff s _).mpr
  intro i _
  exact Nat.le_of_lt_succ (hwords.priority i)

theorem words_tickDown (hwords : Words s) (cur : Fin 64) :
    Words { s with table := s.table.setPcb cur (tickDown (s.table.pcbs cur)) } := by
  refine ⟨fun i => ?_⟩
  by_cases hi : i = cur
  · simpa [Table.setPcb, hi, tickDown] using hwords.priority cur
  · simpa [Table.setPcb, hi] using hwords.priority i

theorem schedulerTick_eq_false (hwords : Words s) : (schedulerTick s).1 = false := by
  simp only [schedulerTick]
  split
  · rfl
  · split
    · rfl
    · next cur _ =>
      simp only [schedulerPickNext_eq_none (words_tickDown hwords cur)]
      split <;> rfl

/-- The choice is right exactly when no process is ready, and a tick exactly when it does not end a
slice while one is. -/
theorem schedulerPickNext_correct_iff (s : Sched) (hwords : Words s) :
    (PickCorrect s (schedulerPickNext s) ↔ ∀ i, ¬ Ready s i) ∧
      (TickCorrect s ↔ ¬ (SliceExpires s ∧ ∃ i, Ready s i)) := by
  constructor
  · rw [schedulerPickNext_eq_none hwords]
    constructor
    · intro h
      exact h.none_iff.mp rfl
    · intro h
      exact ⟨⟨fun _ => h, fun _ => rfl⟩, fun i hi => by simp at hi⟩
  · simp only [TickCorrect, schedulerTick_eq_false hwords]
    tauto

attribute [local instance] neZero_slots in
def waitingProcess : Sched where
  table :=
    { pcbs := fun i =>
        if i = 0 then { used := true, pid := 1, state := .running, priority := 2, remainingTicks := 1 }
        else if i = 1 then { used := true, slot := 1, pid := 2, state := .ready, priority := 2 }
        else {},
      currentPid := 1 }

theorem waitingProcess_words : Words waitingProcess := by
  refine ⟨fun i => ?_⟩
  simp only [waitingProcess]
  split
  · simp
  · split <;> simp

theorem waitingProcess_ready : Ready waitingProcess 1 := ⟨rfl, rfl, by decide⟩

theorem waitingProcess_sliceExpires : SliceExpires waitingProcess := ⟨rfl, 0, by decide, by decide⟩

theorem schedulerPickNext_correct_iff_waitingProcess :
    (PickCorrect waitingProcess (schedulerPickNext waitingProcess) ↔
      ∀ i, ¬ Ready waitingProcess i) ∧
      (TickCorrect waitingProcess ↔
        ¬ (SliceExpires waitingProcess ∧ ∃ i, Ready waitingProcess i)) :=
  schedulerPickNext_correct_iff waitingProcess waitingProcess_words

theorem not_schedulerPickNext_correct :
    Words waitingProcess ∧ ¬ PickCorrect waitingProcess (schedulerPickNext waitingProcess) ∧
      ¬ TickCorrect waitingProcess := by
  refine ⟨waitingProcess_words, fun hpick => ?_, fun htick => ?_⟩
  · rw [schedulerPickNext_eq_none waitingProcess_words] at hpick
    exact hpick.none_iff.mp rfl 1 waitingProcess_ready
  · have hreschedule := htick waitingProcess_sliceExpires ⟨1, waitingProcess_ready⟩
    rw [schedulerTick_eq_false waitingProcess_words] at hreschedule
    exact Bool.false_ne_true hreschedule

end Monios.Analysis.SchedulerChoice
