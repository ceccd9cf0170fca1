import Monios.Model.ProcTable

/-!
# The scheduler

`scheduler_pick_next` and `scheduler_tick` of `kernel/sched/pcb.c`, over the process table of
`Monios.Model.ProcTable`.  The counters of processor time are left out: nothing here reads them.
-/

set_option autoImplicit false

namespace Monios.Model.Scheduler

open Monios.Model.ProcTable

/-- `SCHED_PRIORITY_IDLE`, `SCHED_PRIORITY_HIGH` and `SCHED_PRIORITY_REALTIME` -/
def schedPriorityIdle : Nat := 0

def schedPriorityHigh : Nat := 3

def schedPriorityRealtime : Nat := 4

def schedTimesliceTicks : Nat := 10

structure Sched where
  table : Table
  rrCursor : Nat := 0
  preemptiveEnabled : Bool := true

def pcbResetTimeSlice (p : Pcb) : Pcb :=
  let mult := if schedPriorityRealtime ≤ p.priority then 4 else if schedPriorityHigh ≤ p.priority then 2 else 1
  { p with timeSlice := schedTimesliceTicks * mult, remainingTicks := schedTimesliceTicks * mult }

/-- `current_pid` of `scheduler_pick_next` -/
def schedulerCurrentPid (s : Sched) : Nat :=
  if 0 ≤ s.table.currentPid then s.table.currentPid.toNat else 0xFFFFFFFF

/-- The body of the loop of `scheduler_pick_next`, over `best` and `best_priority`. -/
def schedulerConsider (s : Sched) (best : Option (Fin 64) × Nat) (i : Fin 64) :
    Option (Fin 64) × Nat :=
  let p := s.table.pcbs i
  if !p.used ∨ p.state ≠ .ready then best
  else if p.pid = schedulerCurrentPid s then best
  else if best.2 < p.priority then (some i, p.priority)
  else
    match best.1 with
    | none => best
    | some b =>
      if p.priority = best.2 ∧ s.rrCursor < i ∧ (s.table.pcbs b).slot ≤ s.rrCursor then (some i, best.2) else best

/-- The loop of `scheduler_pick_next`, for what `best_priority` starts from. -/
def schedulerPickFrom (bestPriority : Nat) (s : Sched) : Option (Fin 64) × Nat :=
  (List.finRange 64).foldl (schedulerConsider s) (none, bestPriority)

/-- `scheduler_pick_next`; `SCHED_PRIORITY_IDLE - 1u` is an unsigned expression. -/
def schedulerPickNext (s : Sched) : Option (Fin 64) :=
  (schedulerPickFrom ((schedPriorityIdle + (2 ^ 32 - 1)) % 2 ^ 32) s).1

/-- The entry of the current process after `cur->remaining_ticks--`. -/
def tickDown (p : Pcb) : Pcb := { p with remainingTicks := p.remainingTicks - 1 }

def schedulerTick (s : Sched) : Bool × Sched :=
  if !s.preemptiveEnabled then (false, s)
  else
    match ProcTable.pcbGetCurrent s.table with
    | none => (false, s)
    | some cur =>
      let s := { s with table := s.table.setPcb cur (tickDown (s.table.pcbs cur)) }
      let p := s.table.pcbs cur
      if p.remainingTicks = 0 then
        match schedulerPickNext s with
        | some _ =>
          (true, { s with rrCursor := (p.slot + 1) % 64, table := s.table.setPcb cur (pcbResetTimeSlice p) })
        | none => (false, { s with table := s.table.setPcb cur (pcbResetTimeSlice p) })
      else (false, s)

end Monios.Model.Scheduler
