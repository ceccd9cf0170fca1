import Mathlib.Algebra.Order.Ring.Int
import Mathlib.Data.List.FinRange

/-!
# Processes, execution contexts and fork

The process table of `kernel/sched/pcb.c`, the execution context of
`kernel/syscall/exec.c` and the process calls of `kernel/syscall/proc_mgmt.c`.

The kernel is cooperative: a forked child is a `READY` entry of the process table
until its parent waits for it, and `exec_run_child` then runs it to completion
inside the parent's `sys_waitpid`.  The C stack of the nested activations is made
explicit here: `Kernel.frames` holds, innermost first, what each suspended
`exec_run_child` keeps in its local variables, and `resumeParent` is the part of
`exec_run_child` and `sys_waitpid` that runs when the child is done.

Left out are the tick counters, the fault fields of the process table and the
contents of address spaces: nothing modelled here reads them.
-/

set_option autoImplicit false

namespace Monios.Model

def pathRoot : String := "C:\\"

/-- `EXEC_PRIV_R0`, `EXEC_PRIV_R2` and `EXEC_PRIV_R3`. -/
def execPrivR0 : UInt32 := 0

def execPrivR2 : UInt32 := 2

def execPrivR3 : UInt32 := 3

/-- `EXEC_IMAGE_FLAG_DRIVER`, `EXEC_IMAGE_FLAG_SIGNED` and `EXEC_IMAGE_FLAG_NEEDS_R2`. -/
def execImageFlagDriver : UInt32 := 0x4

def execImageFlagSigned : UInt32 := 0x8

def execImageFlagNeedsR2 : UInt32 := 0x20

/-- `pcb_state_t`. -/
inductive PcbState
  | free | ready | running | exited | aborted | stopped | zombie | waiting
  deriving DecidableEq, Repr

/-- The saved user registers of a `pcb_t`. -/
structure Regs where
  rax : UInt64 := 0
  rbx : UInt64 := 0
  rcx : UInt64 := 0
  rdx : UInt64 := 0
  rsi : UInt64 := 0
  rdi : UInt64 := 0
  rbp : UInt64 := 0
  rsp : UInt64 := 0
  r8 : UInt64 := 0
  r9 : UInt64 := 0
  r10 : UInt64 := 0
  r11 : UInt64 := 0
  r12 : UInt64 := 0
  r13 : UInt64 := 0
  r14 : UInt64 := 0
  r15 : UInt64 := 0
  rip : UInt64 := 0
  rflags : UInt64 := 0
  deriving DecidableEq, Repr

/-- `pcb_t`.  The defaults are the values `memset(pcb, 0, ...)` leaves behind. -/
structure Pcb where
  used : Bool := false
  slot : Nat := 0
  pid : Nat := 0
  name : String := ""
  path : String := ""
  state : PcbState := .free
  exitCode : Int := 0
  parentPid : Int := 0
  priority : Nat := 0
  timeSlice : Nat := 0
  remainingTicks : Nat := 0
  uid : Nat := 0
  gid : Nat := 0
  euid : Nat := 0
  egid : Nat := 0
  addrSpaceActive : Bool := false
  regs : Regs := {}
  kernelStack : Bool := false
  kernelStackSize : Nat := 0
  pgid : Int := 0
  sid : Int := 0
  sessionLeader : Bool := false
  waitTargetPid : Int := 0
  fdTable : List Int := List.replicate 64 0
  fdCloexec : List UInt8 := List.replicate 8 0
  deriving DecidableEq, Repr

/-- The fields of `exec_launch_info_t` that the kernel reads back. -/
structure LaunchInfo where
  privilegeLevel : UInt32
  imageFlags : UInt32
  programPath : Option String
  deriving DecidableEq, Repr

/-- `exec_runtime_context_t`.  The defaults are the values of a zeroed context. -/
structure ExecContext where
  launchInfo : Option LaunchInfo := none
  imageFlags : UInt32 := 0
  privilegeLevel : UInt32 := 0
  cwd : String := ""
  programPath : String := ""
  exitCode : Int := 0
  faultVector : UInt8 := 0
  faultErrorCode : UInt64 := 0
  completed : Bool := false
  faulted : Bool := false
  kernelStack : Bool := false
  deriving DecidableEq, Repr

/-- What one suspended activation of `exec_run_child`, and of the `sys_waitpid`
that called it, holds in its local variables. -/
structure ChildFrame where
  savedCtx : Option ExecContext
  /-- the table entry `parent = pcb_get_current()` points to -/
  parent : Option (Fin 64)
  /-- the table entry `cur` of `sys_waitpid` points to -/
  waiter : Fin 64
  /-- the table entry `child` points to -/
  child : Fin 64

structure Kernel where
  pcbs : Fin 64 → Pcb
  /-- `g_pcb_bitmap`: the slots the pool has handed out -/
  pool : Fin 64 → Bool
  nextPid : Nat
  currentPid : Int
  context : Option ExecContext
  /-- the suspended activations of `exec_run_child`, innermost first -/
  frames : List ChildFrame

/-! ## The execution context as the system-call layer sees it -/

def execActive (k : Kernel) : Bool := k.context.isSome

def execCurrentPrivilegeLevel (k : Kernel) : UInt32 :=
  match k.context with
  | some c => c.privilegeLevel
  | none => execPrivR0

def execCurrentImageFlags (k : Kernel) : UInt32 :=
  match k.context with
  | some c => c.imageFlags
  | none => 0

def execCurrentProgramPath (k : Kernel) : String :=
  match k.context with
  | some c => if c.programPath = "" then pathRoot else c.programPath
  | none => pathRoot

def execCurrentCwd (k : Kernel) : String :=
  match k.context with
  | some c => if c.cwd = "" then pathRoot else c.cwd
  | none => pathRoot

def execCompleteFromSyscall (exitCode : Int) (k : Kernel) : Kernel :=
  { k with context := k.context.map fun c =>
      { c with completed := true, faulted := false, exitCode := exitCode } }

def execAbortFromException (vector : UInt8) (errorCode : UInt64) (k : Kernel) : Kernel :=
  let code : Int := -((vector.toNat : Int) + 0x100)
  let code := if errorCode ≠ 0 then code - ((errorCode &&& 0xFF).toNat : Int) else code
  { k with context := k.context.map fun c =>
      { c with completed := true, faulted := true, faultVector := vector,
               faultErrorCode := errorCode, exitCode := code } }

/-! ## The process table -/

def Kernel.setPcb (k : Kernel) (i : Fin 64) (p : Pcb) : Kernel :=
  { k with pcbs := Function.update k.pcbs i p }

@[simp] theorem Kernel.setPcb_context (k : Kernel) (i : Fin 64) (p : Pcb) :
    (k.setPcb i p).context = k.context := rfl

@[simp] theorem Kernel.setPcb_frames (k : Kernel) (i : Fin 64) (p : Pcb) :
    (k.setPcb i p).frames = k.frames := rfl

/-- `pcb_find_by_pid`: the first used entry with that pid. -/
def pcbFindByPid (k : Kernel) (pid : Int) : Option (Fin 64) :=
  (List.finRange 64).find? fun i => (k.pcbs i).used && decide (((k.pcbs i).pid : Int) = pid)

def pcbGetCurrent (k : Kernel) : Option (Fin 64) :=
  if k.currentPid < 0 then none else pcbFindByPid k k.currentPid

/-- `pool_alloc_slot` on `g_pcb_pool`: the first slot whose bit is clear. -/
def poolAllocSlot (k : Kernel) : Option (Fin 64 × Kernel) :=
  match (List.finRange 64).find? fun i => !k.pool i with
  | some i => some (i, { k with pool := Function.update k.pool i true })
  | none => none

/-- `pcb_claim_slot`: a free slot, or else the slot of the first process that is
not running, whose entry is wiped. -/
def pcbClaimSlot (k : Kernel) : Option (Fin 64 × Kernel) :=
  match poolAllocSlot k with
  | some r => some r
  | none =>
    match (List.finRange 64).find? fun i =>
        (k.pcbs i).used && decide ((k.pcbs i).state ≠ .running) with
    | some i =>
      poolAllocSlot ({ k with pool := Function.update k.pool i false }.setPcb i {})
    | none => none

def pcbFdInit (p : Pcb) : Pcb :=
  { p with fdTable := [0, 1, 2] ++ List.replicate 61 (-1), fdCloexec := List.replicate 8 0 }

/-- `pcb_create_child`.  `g_next_pid` is a 32-bit counter. -/
def pcbCreateChild (parentPid : Int) (k : Kernel) : Option (Fin 64 × Kernel) :=
  match pcbClaimSlot k with
  | none => none
  | some (i, k) =>
    let p : Pcb :=
      { used := true, slot := i, pid := k.nextPid, state := .ready, parentPid := parentPid,
        waitTargetPid := -1, timeSlice := 10, remainingTicks := 10 }
    let k := { k with nextPid := (k.nextPid + 1) % 2 ^ 32 }.setPcb i p
    -- the lookup runs after the new entry is in place, as in the source
    let p := match pcbFindByPid k parentPid with
      | some q =>
        { p with priority := (k.pcbs q).priority, pgid := (k.pcbs q).pgid,
                 sid := (k.pcbs q).sid, fdTable := (k.pcbs q).fdTable,
                 fdCloexec := (k.pcbs q).fdCloexec }
      | none => pcbFdInit { p with priority := 2, pgid := p.pid, sid := p.pid }
    some (i, k.setPcb i p)

/-- Whether a parent that waits for `par.waitTargetPid` waits for the process `p`. -/
def waitTargetMatches (par p : Pcb) (pid : Int) : Bool :=
  let target := par.waitTargetPid
  if target = -1 then true
  else if 0 < target then decide (target = pid)
  else if target = 0 then decide (par.pgid = p.pgid)
  else decide (-target = p.pgid)

/-- The end of `pcb_finish_process`: a parent that waits for the process `p` that
has just ended, or for its group, is made ready. -/
def pcbWakeParent (pid : Int) (p : Pcb) (k : Kernel) : Kernel :=
  match pcbFindByPid k p.parentPid with
  | none => k
  | some j =>
    let par := k.pcbs j
    if par.state = .waiting ∧ waitTargetMatches par p pid then
      k.setPcb j { par with state := .ready, waitTargetPid := -1 }
    else k

def pcbFinishProcess (pid : Int) (state : PcbState) (exitCode : Int) (k : Kernel) : Kernel :=
  match pcbFindByPid k pid with
  | none => k
  | some i =>
    let p := { k.pcbs i with state := state, exitCode := exitCode }
    let k := k.setPcb i p
    let k := if k.currentPid = pid then { k with currentPid := -1 } else k
    pcbWakeParent pid p k

/-- `pcb_reap_child`.  Returns the reaped pid, the exit code it reports and the
state after the slot is freed. -/
def pcbReapChild (parentPid childPid : Int) (k : Kernel) : Option (Int × Int × Kernel) :=
  match (List.finRange 64).find? fun i =>
      (k.pcbs i).used && decide ((k.pcbs i).parentPid = parentPid) &&
        decide (((k.pcbs i).pid : Int) = childPid) with
  | none => none
  | some i =>
    let p := k.pcbs i
    if p.state = .zombie ∨ p.state = .exited ∨ p.state = .aborted then
      some (p.pid, p.exitCode, { k with pool := Function.update k.pool i false }.setPcb i {})
    else none

/-! ## The process calls -/

theorem neZero_slots : NeZero 64 := ⟨by decide⟩

theorem neZero_frame : NeZero 20 := ⟨by decide⟩

/-- The register frame `syscall_interrupt_handler` lays down. -/
abbrev SyscallFrame := Fin 20 → UInt64

/-- The register state `sys_fork` stores for the child. -/
def forkRegs (f : SyscallFrame) : Regs :=
  { rax := 0, rbx := f 1, rcx := f 2, rdx := f 3, rsi := f 4, rdi := f 5, rbp := f 6,
    r8 := f 7, r9 := f 8, r10 := f 9, r11 := f 10, r12 := f 11, r13 := f 12, r14 := f 13,
    r15 := f 14, rip := f 15, rflags := f 17, rsp := f 18 }

/-- `sys_fork`.  `vmOk` and `stackOk` say whether `vm_create_address_space` and the
`kmalloc` of the kernel stack succeed.  Returns the value of the call and, when a
child was made, its table entry. -/
def sysFork (f : SyscallFrame) (vmOk stackOk : Bool) (k : Kernel) :
    Int × Option (Fin 64) × Kernel :=
  match pcbGetCurrent k with
  | none => (-1, none, k)
  | some par =>
    match pcbCreateChild (k.pcbs par).pid k with
    | none => (-1, none, k)
    | some (i, k) =>
      let parent := k.pcbs par
      let child := { k.pcbs i with name := parent.name, path := parent.path }
      if !vmOk then
        (-1, none, k.setPcb i { child with used := false })
      else if !stackOk then
        -- `vm_destroy_address_space` clears the `active` flag again
        (-1, none, k.setPcb i { child with used := false })
      else
        let child :=
          { child with
            addrSpaceActive := true, kernelStack := true, kernelStackSize := 65536,
            uid := parent.uid, gid := parent.gid, euid := parent.euid, egid := parent.egid,
            regs := forkRegs f, state := .ready }
        (child.pid, some i, k.setPcb i child)

def waitpidMatches (cur child : Pcb) (pid : Int) : Bool :=
  if 0 < pid then decide ((child.pid : Int) = pid)
  else if pid = -1 then true
  else if pid = 0 then decide (child.pgid = cur.pgid)
  else decide (child.pgid = -pid)

def waitpidReapable (s : PcbState) : Bool :=
  decide (s = .zombie ∨ s = .exited ∨ s = .aborted)

/-- The first half of `exec_run_child`, up to `fork_enter_user_mode`: the child's
context is built from zeroed memory and swapped in.  `ctxOk` says whether the
`kmalloc` of the context succeeds.  `none` is the early `return -1`. -/
def execRunChild (child waiter : Fin 64) (ctxOk : Bool) (k : Kernel) : Option Kernel :=
  let c := k.pcbs child
  if !c.addrSpaceActive || !c.kernelStack || !ctxOk then none
  else
    let frame : ChildFrame :=
      { savedCtx := k.context, parent := pcbGetCurrent k, waiter := waiter, child := child }
    let childCtx : ExecContext := { kernelStack := c.kernelStack, completed := false }
    some { k with currentPid := c.pid, context := some childCtx, frames := frame :: k.frames }

/-- What `sys_waitpid` does with the value `exec_run_child` returned for `child`. -/
def waitpidCollect (child waiter : Fin 64) (code : Int) (k : Kernel) : Kernel :=
  let c := { k.pcbs child with exitCode := code, state := .zombie }
  let k := k.setPcb child c
  match pcbReapChild (k.pcbs waiter).pid c.pid k with
  | some (_, _, k) => k
  | none => k

/-- The second half of `exec_run_child`, after the child has exited, followed by
the rest of the `sys_waitpid` it was called from. -/
def resumeParent (frame : ChildFrame) (rest : List ChildFrame) (k : Kernel) : Kernel :=
  let code := match k.context with
    | some c => c.exitCode
    | none => 0
  let k := { k with context := frame.savedCtx, frames := rest }
  let k := match frame.parent with
    | some p => { k with currentPid := (k.pcbs p).pid }
    | none => k
  waitpidCollect frame.child frame.waiter code k

/-- `sys_waitpid`, up to the point where it returns or where the child it runs has
been entered. -/
def sysWaitpid (pid : Int) (ctxOk : Bool) (k : Kernel) : Kernel :=
  match pcbGetCurrent k with
  | none => k
  | some cur =>
    let me := k.pcbs cur
    let mine := (List.finRange 64).filter fun i =>
      (k.pcbs i).used && decide ((k.pcbs i).parentPid = (me.pid : Int)) && waitpidMatches me (k.pcbs i) pid
    match mine.find? fun i => waitpidReapable (k.pcbs i).state with
    | some i =>
      match pcbReapChild me.pid (k.pcbs i).pid k with
      | some (_, _, k) => k
      | none => k
    | none =>
      match (mine.find? fun i => decide ((k.pcbs i).state = .ready)).bind
          fun i => pcbFindByPid k (k.pcbs i).pid with
      | some child =>
        let k := k.setPcb child { k.pcbs child with state := .running }
        match execRunChild child cur ctxOk k with
        | some k => k
        | none => waitpidCollect child cur (-1) k
      | none =>
        if mine ≠ [] then
          k.setPcb cur { me with state := .waiting, waitTargetPid := pid }
        else k

def sysExit (exitCode : Int) (k : Kernel) : Kernel :=
  let k := match pcbGetCurrent k with
    | some i =>
      let k := k.setPcb i { k.pcbs i with exitCode := exitCode, state := .zombie }
      pcbFinishProcess (k.pcbs i).pid .exited exitCode k
    | none => k
  execCompleteFromSyscall exitCode k

/-! ## One step of a process tree -/

inductive ProcAction
  | fork (frame : SyscallFrame) (vmOk stackOk : Bool)
  | waitpid (pid : Int) (ctxOk : Bool)
  | exit (code : Int)
  | fault (vector : UInt8) (errorCode : UInt64)

/-- The process that completed gives the processor back to the `exec_run_child`
that entered it. -/
def returnToParent (k : Kernel) : Option Kernel :=
  match k.frames with
  | frame :: rest => some (resumeParent frame rest k)
  | [] => none

/-- One call made by the process that is running.  The process at the root of the
tree was not entered by `exec_run_child`; when it ends, so does the tree. -/
def procStep (k : Kernel) : ProcAction → Option Kernel
  | .fork f vmOk stackOk => some (sysFork f vmOk stackOk k).2.2
  | .waitpid pid ctxOk => some (sysWaitpid pid ctxOk k)
  | .exit code => returnToParent (sysExit code k)
  | .fault vector errorCode => returnToParent (execAbortFromException vector errorCode k)

end Monios.Model
