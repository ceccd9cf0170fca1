import Mathlib.Algebra.Order.Ring.Int
import Mathlib.Data.List.FinRange

/-!
# Futexes

`kernel/sched/futex.c`.  A slot counts the waiters of an address and has one deadline.  Counters
have 32 bits and ticks have 64, so that `waiters++` is a sum modulo `2 ^ 32`.  The status texts are
left out.
-/

set_option autoImplicit false

namespace Monios.Model.Futex

/-- `futex_slot_t` -/
structure FutexSlot where
  used : Bool := false
  address : UInt64 := 0
  expected : UInt32 := 0
  waiters : Nat := 0
  deadline : Nat := 0

/-- `g_slots` and `g_futex_info`; the defaults are what `futex_init` sets.  `FUTEX_MAX_SLOTS` is 16.
-/
structure FutexTable where
  slots : Fin 16 → FutexSlot := fun _ => {}
  totalWaiters : Nat := 0
  wakeOps : Nat := 0
  timeoutReaps : Nat := 0
  usedSlots : Nat := 0

def FutexTable.setSlot (s : FutexTable) (i : Fin 16) (slot : FutexSlot) : FutexTable :=
  { s with slots := Function.update s.slots i slot }

def futexFindSlot (s : FutexTable) (address : UInt64) : Option (Fin 16) :=
  (List.finRange 16).find? fun i => (s.slots i).used && (s.slots i).address == address

def futexFindOrCreateSlot (s : FutexTable) (address : UInt64) : Option (Fin 16) × FutexTable :=
  match futexFindSlot s address with
  | some i => (some i, s)
  | none =>
    match (List.finRange 16).find? fun i => !(s.slots i).used with
    | some i =>
      (some i, { s.setSlot i { s.slots i with used := true, address := address } with usedSlots := (s.usedSlots + 1) % 2 ^ 32 })
    | none => (none, s)

/-- `counter -= count`, or zero if there is not so much -/
def decrease (counter count : Nat) : Nat := if counter ≥ count then counter - count else 0

/-- A slot that `futex_update` leaves alone. -/
def FutexSlot.stays (slot : FutexSlot) (now : Nat) : Bool :=
  !slot.used || slot.deadline == 0 || decide (now < slot.deadline)

/-- The round of `futex_update` for a slot. -/
def futexReap (now : Nat) (s : FutexTable) (i : Fin 16) : FutexTable :=
  let slot := s.slots i
  if slot.stays now then s
  else
    { s.setSlot i { slot with used := false, waiters := 0, deadline := 0 } with
      totalWaiters := decrease s.totalWaiters slot.waiters
      usedSlots := decrease s.usedSlots 1
      timeoutReaps := (s.timeoutReaps + 1) % 2 ^ 32 }

/-- `futex_update`, for what `timer_ticks` answers -/
def futexUpdate (now : Nat) (s : FutexTable) : FutexTable :=
  (List.finRange 16).foldl (futexReap now) s

/-- `futex_wait`, for what `timer_ticks` answers; the answer is the number of the waiters, or -1. -/
def futexWait (now : Nat) (s : FutexTable) (address : UInt64) (expected timeoutTicks : UInt32) :
    Int × FutexTable :=
  if address = 0 then (-1, s)
  else
    match futexFindOrCreateSlot s address with
    | (none, s) => (-1, s)
    | (some i, s) =>
      let slot := { s.slots i with
        expected := expected
        waiters := ((s.slots i).waiters + 1) % 2 ^ 32
        deadline := if timeoutTicks = 0 then 0 else (now + timeoutTicks.toNat) % 2 ^ 64 }
      ((slot.waiters : Int).bmod (2 ^ 32), { s.setSlot i slot with totalWaiters := (s.totalWaiters + 1) % 2 ^ 32 })

/-- The number that `futex_wake` wakes of so many waiters. -/
def wakeCount (count waiters : Nat) : Nat := if count = 0 ∨ count > waiters then waiters else count

def futexWake (s : FutexTable) (address : UInt64) (count : UInt32) : Nat × FutexTable :=
  match futexFindSlot s address with
  | none => (0, s)
  | some i =>
    let slot := s.slots i
    let woken := wakeCount count.toNat slot.waiters
    let left := slot.waiters - woken
    let s := { s with totalWaiters := decrease s.totalWaiters woken, wakeOps := (s.wakeOps + woken) % 2 ^ 32 }
    (woken,
      if left = 0 then
        { s.setSlot i { slot with used := false, waiters := left, deadline := 0 } with usedSlots := decrease s.usedSlots 1 }
      else s.setSlot i { slot with waiters := left })

def futexWaiterCount (s : FutexTable) (address : UInt64) : Nat :=
  match futexFindSlot s address with
  | none => 0
  | some i => (s.slots i).waiters

/-! ## Histories -/

inductive FutexOp
  | wait (address : UInt64) (expected timeoutTicks : UInt32)
  | wake (address : UInt64) (count : UInt32)
  | update
  | tick (ticks : Nat)

structure TimedTable where
  table : FutexTable := {}
  ticks : Nat := 0

def futexStep (s : TimedTable) : FutexOp → Option TimedTable
  | .wait address expected timeoutTicks => some { s with table := (futexWait s.ticks s.table address expected timeoutTicks).2 }
  | .wake address count => some { s with table := (futexWake s.table address count).2 }
  | .update => some { s with table := futexUpdate s.ticks s.table }
  | .tick ticks => if s.ticks ≤ ticks ∧ ticks < 2 ^ 64 then some { s with ticks := ticks } else none

end Monios.Model.Futex
