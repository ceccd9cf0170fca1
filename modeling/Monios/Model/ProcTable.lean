import Monios.Library.Bitmap
import Monios.Model.Process

/-!
# The process table and its pool

The process table of `kernel/sched/pcb.c` with the pool of `kernel/mm/pool.c` that hands its slots
out: the bitmap of the slots and the counter of the slots in use.  `Monios.Model.Process` follows
the processes of one tree through the system calls; here every function that makes, ends or collects
a process may be called at any time and with any pid.

Left out are the fields of an entry that `Pcb` leaves out, the counters of operations of the pool,
the status texts, and the address space and the kernel stack that are released when a process is
collected.
-/

set_option autoImplicit false

namespace Monios.Model.ProcTable

/-! ## The pool -/

/-- The part of `pool_t` that is read back. -/
structure Pool where
  map : Fin 64 → Bool := fun _ => false
  used : Nat := 0

/-- `pool_alloc_slot`: the first slot whose bit is clear. -/
def poolAllocSlot (pool : Pool) : Option (Fin 64 × Pool) :=
  match Library.Bitmap.firstClear pool.map with
  | some i => some (i, ⟨Function.update pool.map i true, pool.used + 1⟩)
  | none => none

def poolFreeSlot (pool : Pool) (slot : Fin 64) : Pool :=
  if pool.map slot then ⟨Function.update pool.map slot false, if pool.used > 0 then pool.used - 1 else pool.used⟩
  else pool

/-! ## The table -/

/-- The globals of `pcb.c`; the defaults are what `pcb_init` sets. -/
structure Table where
  pcbs : Fin 64 → Pcb := fun _ => {}
  pool : Pool := {}
  nextPid : Nat := 1
  currentPid : Int := -1

def pcbInit : Table := {}

def Table.setPcb (t : Table) (i : Fin 64) (p : Pcb) : Table :=
  { t with pcbs := Function.update t.pcbs i p }

/-- A pid as `int32_t`. -/
def signed (pid : Nat) : Int := Int.bmod pid (2 ^ 32)

def pcbCopyText (size : Nat) (src : Option String) : String :=
  match src with
  | some text => String.ofList (text.toList.take (size - 1))
  | none => ""

def pcbCopyNameFromPath (size : Nat) (path : Option String) : String :=
  match path with
  | none => pcbCopyText size (some "kernel")
  | some text =>
    let name := (text.toList.reverse.takeWhile fun c => c ≠ '/' ∧ c ≠ '\\').reverse
    pcbCopyText size (some (if name ≠ [] then String.ofList name else text))

def pcbFindByPid (t : Table) (pid : Int) : Option (Fin 64) :=
  (List.finRange 64).find? fun i => (t.pcbs i).used && decide (signed (t.pcbs i).pid = pid)

def pcbGetCurrent (t : Table) : Option (Fin 64) :=
  if t.currentPid < 0 then none else pcbFindByPid t t.currentPid

/-- The entry that `pcb_claim_slot` takes when the pool is full. -/
def recycled (t : Table) : Option (Fin 64) :=
  (List.finRange 64).find? fun i => (t.pcbs i).used && decide ((t.pcbs i).state ≠ .running)

def pcbClaimSlot (t : Table) : Option (Fin 64 × Table) :=
  match poolAllocSlot t.pool with
  | some (i, pool) => some (i, { t with pool := pool })
  | none =>
    match recycled t with
    | some i =>
      let t := { t with pool := poolFreeSlot t.pool i }.setPcb i {}
      (poolAllocSlot t.pool).map fun (j, pool) => (j, { t with pool := pool })
    | none => none

/-- The entry that `pcb_process_start` fills in. -/
def startedPcb (slot : Fin 64) (pid : Nat) (path : Option String) : Pcb :=
  pcbFdInit
    { used := true, slot := slot, pid := pid, state := .running, path := pcbCopyText 128 path,
      name := pcbCopyNameFromPath 32 path, parentPid := -1, pgid := signed pid, sid := signed pid, sessionLeader := true,
      waitTargetPid := -1, priority := 2, timeSlice := 10, remainingTicks := 10 }

/-- `pcb_process_start`.  `g_next_pid` has 32 bits. -/
def pcbProcessStart (path : Option String) (t : Table) : Int × Table :=
  match pcbClaimSlot t with
  | none => (-1, t)
  | some (i, t) =>
    let pid := t.nextPid
    let t := { t with nextPid := (pid + 1) % 2 ^ 32 }.setPcb i (startedPcb i pid path)
    (signed pid, { t with currentPid := signed pid })

/-- What `pcb_create_child` has filled in when it looks the parent up. -/
def freshChild (slot : Fin 64) (pid : Nat) (parentPid : Int) : Pcb :=
  { used := true, slot := slot, pid := pid, state := .ready, parentPid := parentPid }

/-- The rest of `pcb_create_child`; `pcb_fd_copy` copies the two tables of descriptors. -/
def inherit (child : Pcb) (parent : Option Pcb) : Pcb :=
  let child := { child with waitTargetPid := -1, timeSlice := 10, remainingTicks := 10 }
  match parent with
  | some par =>
    { child with priority := par.priority, pgid := par.pgid, sid := par.sid, fdTable := par.fdTable,
                 fdCloexec := par.fdCloexec }
  | none =>
    pcbFdInit { child with priority := 2, pgid := signed child.pid, sid := signed child.pid }

def pcbCreateChild (parentPid : Int) (t : Table) : Option (Fin 64) × Table :=
  match pcbClaimSlot t with
  | none => (none, t)
  | some (i, t) =>
    let child := freshChild i t.nextPid parentPid
    let t := { t with nextPid := (t.nextPid + 1) % 2 ^ 32 }.setPcb i child
    (some i, t.setPcb i (inherit child ((pcbFindByPid t parentPid).map t.pcbs)))

/-- The end of `pcb_finish_process`: a parent that waits for the process `p`. -/
def pcbWakeParent (pid : Int) (p : Pcb) (t : Table) : Table :=
  match pcbFindByPid t p.parentPid with
  | none => t
  | some j =>
    if (t.pcbs j).state = .waiting ∧ waitTargetMatches (t.pcbs j) p pid then
      t.setPcb j { t.pcbs j with state := .ready, waitTargetPid := -1 }
    else t

def pcbFinishProcess (pid : Int) (state : PcbState) (exitCode : Int) (t : Table) : Table :=
  match pcbFindByPid t pid with
  | none => t
  | some i =>
    let p := { t.pcbs i with state := state, exitCode := exitCode }
    let t := t.setPcb i p
    let t := if t.currentPid = pid then { t with currentPid := -1 } else t
    pcbWakeParent pid p t

def pcbProcessExit (pid exitCode : Int) : Table → Table := pcbFinishProcess pid .exited exitCode

def pcbProcessAbort (pid exitCode : Int) : Table → Table := pcbFinishProcess pid .aborted exitCode

/-- `pcb_process_fault`; the fields in which it notes the fault are left out of `Pcb`. -/
def pcbProcessFault (pid exitCode : Int) : Table → Table := pcbFinishProcess pid .aborted exitCode

def pcbProcessStop (pid : Int) : Table → Table := pcbFinishProcess pid .stopped (-1)

def pcbSetState (pid : Int) (state : PcbState) (t : Table) : Table :=
  match pcbFindByPid t pid with
  | some i => t.setPcb i { t.pcbs i with state := state }
  | none => t

def pcbSetCurrent (pid : Int) (t : Table) : Table := { t with currentPid := pid }

/-- The end of `pcb_wait_child` and of `pcb_reap_child`: the pid, the exit code, and the table
without the process. -/
def collect (i : Fin 64) (t : Table) : Int × Int × Table :=
  (signed (t.pcbs i).pid, (t.pcbs i).exitCode, { t.setPcb i {} with pool := poolFreeSlot t.pool i })

def pcbWaitChild (parentPid : Int) (t : Table) : Option (Int × Int × Table) :=
  match (List.finRange 64).find? fun i =>
      (t.pcbs i).used && decide ((t.pcbs i).parentPid = parentPid) && waitpidReapable (t.pcbs i).state with
  | some i => some (collect i t)
  | none => none

def pcbReapChild (parentPid childPid : Int) (t : Table) : Option (Int × Int × Table) :=
  match (List.finRange 64).find? fun i =>
      (t.pcbs i).used && decide ((t.pcbs i).parentPid = parentPid) && decide (signed (t.pcbs i).pid = childPid) with
  | some i => if waitpidReapable (t.pcbs i).state then some (collect i t) else none
  | none => none

/-! ## Runs -/

inductive Action
  | start (path : Option String)
  | createChild (parentPid : Int)
  | exit (pid exitCode : Int)
  | abort (pid exitCode : Int)
  | fault (pid exitCode : Int)
  | stop (pid : Int)
  | setState (pid : Int) (state : PcbState)
  | setCurrent (pid : Int)
  | waitChild (parentPid : Int)
  | reapChild (parentPid childPid : Int)

def apply (t : Table) : Action → Table
  | .start path => (pcbProcessStart path t).2
  | .createChild parentPid => (pcbCreateChild parentPid t).2
  | .exit pid exitCode => pcbProcessExit pid exitCode t
  | .abort pid exitCode => pcbProcessAbort pid exitCode t
  | .fault pid exitCode => pcbProcessFault pid exitCode t
  | .stop pid => pcbProcessStop pid t
  | .setState pid state => pcbSetState pid state t
  | .setCurrent pid => pcbSetCurrent pid t
  | .waitChild parentPid => ((pcbWaitChild parentPid t).map fun r => r.2.2).getD t
  | .reapChild parentPid childPid => ((pcbReapChild parentPid childPid t).map fun r => r.2.2).getD t

def step (t : Table) (a : Action) : Option Table := some (apply t a)

end Monios.Model.ProcTable
