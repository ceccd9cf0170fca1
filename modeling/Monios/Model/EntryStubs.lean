import Monios.Model.Process
import Monios.Library.Cpu

/-!
# The privilege checks of the system-call layer

The decisions `kernel/syscall/syscall.c` takes from the privilege level and the
image flags of the running process: the path checks, the guard in front of the
calls that need `EXEC_PRIV_R2`, the signal check and `SYS_REQUEST_R0`.
-/

set_option autoImplicit false

namespace Monios.Model

def syscallLowerAscii (c : Char) : Char :=
  if 'A' ≤ c ∧ c ≤ 'Z' then Char.ofNat (c.toNat + ('a'.toNat - 'A'.toNat)) else c

/-- `strcasecmp(a, b) == 0` -/
def strcasecmpEq (a b : String) : Bool :=
  a.toList.map syscallLowerAscii == b.toList.map syscallLowerAscii

def syscallPathPrefixCi (path : String) ( pre : String) (n : Nat) : Bool :=
  (path.toList.take n).map syscallLowerAscii == (pre.toList.take n).map syscallLowerAscii

def uiAuthPath : String := "C:\\Monios\\System\\Config\\pwd.txt"

def uiTrustRootBundlePath : String := "C:\\Monios\\System\\Security\\trust.bin"

/-- `syscall_path_write_allowed`; `home` is the home directory of the session user,
when there is one. -/
def syscallPathWriteAllowed (home : Option String) (path : String) (k : Kernel) : Bool :=
  if !execActive k || execCurrentPrivilegeLevel k ≤ execPrivR2 then true
  else
    match home with
    | none => false
    | some h =>
      h.length > 0 && path.length > h.length && !strcasecmpEq path h &&
        syscallPathPrefixCi path h h.length && path.toList[h.length]? == some '\\'

def syscallPathReadAllowed (path : String) (k : Kernel) : Bool :=
  if !execActive k || execCurrentPrivilegeLevel k ≤ execPrivR2 then true
  else !strcasecmpEq path uiAuthPath && !strcasecmpEq path uiTrustRootBundlePath

/-- The guard of the registry, default-application, deferred-execution, backup and
driver calls: they return `-1` when this is false. -/
def syscallElevatedAllowed (k : Kernel) : Bool :=
  !(execActive k && execCurrentPrivilegeLevel k > execPrivR2)

/-- `syscall_signal_target_allowed` for a target other than the caller itself. -/
def syscallSignalOtherAllowed (k : Kernel) : Bool :=
  !execActive k || execCurrentPrivilegeLevel k ≤ execPrivR2

/-- `SYS_REQUEST_R0` returns 0. -/
def syscallRequestR0Allowed (k : Kernel) : Bool :=
  execActive k && execCurrentImageFlags k &&& execImageFlagDriver != 0 &&
    execCurrentImageFlags k &&& execImageFlagSigned != 0 &&
    execCurrentPrivilegeLevel k == execPrivR0

/-- The calls that a gate allows or refuses by itself; above R2 `SYS_REQUEST_R2` leaves it to the
user. -/
inductive GatedCall
  | writePath (home : Option String) (path : String)
  | readPath (path : String)
  | elevated
  | signalOther
  | requestR0

def gateAllows (k : Kernel) : GatedCall → Bool
  | .writePath home path => syscallPathWriteAllowed home path k
  | .readPath path => syscallPathReadAllowed path k
  | .elevated => syscallElevatedAllowed k
  | .signalOther => syscallSignalOtherAllowed k
  | .requestR0 => syscallRequestR0Allowed k

end Monios.Model

/-!
# The entry stubs

The routines of `kernel/arch/kernel_entry.asm` through which user code enters and leaves the kernel:
`exception_common`, `syscall_interrupt_handler`, `syscall_entry` and `fork_enter_user_mode`.

The kernel behind the stubs is compiled C.  Where a stub calls it, `scratch` is what the compiled
function leaves in the registers that it need not keep.  `cli`, `cld` and the loads of the segment
registers act on nothing modelled here.
-/

namespace Monios.Model

open Monios.Library

/-- `GDT_USER_DATA_SELECTOR | 3` and `GDT_USER_CODE_SELECTOR | 3` -/
def userDataSelector : UInt64 := 0x1B

def userCodeSelector : UInt64 := 0x23

inductive StubExit
  /-- `iretq` -/
  | user (u : UserContext)
  /-- `sysret` without a 64-bit operand size: user mode, but 32-bit code -/
  | compat (u : UserContext)
  /-- `ret` on the stack of the routine that entered the process -/
  | resume (rsp : UInt64)
  | halt

/-! ## Exceptions -/

/-- `cpu_exception_dispatch`.  `handled` is the answer of `vm_handle_page_fault`, and `active` that
of `exec_active`. -/
def cpuExceptionDispatch (handled active : Bool) (frame : Words) : UInt64 :=
  let vector := (frame 0).toUInt8
  let rip := frame 2
  let fromUser := frame 3 &&& 3 == 3
  if vector == 14 && fromUser && handled then 2
  else if (fromUser || active && decide (0x04000000 ≤ rip) && decide (rip < 0x04400000)) && active then 1
  else 0

/-- `exception_common`; `resume` is the answer of `exec_resume_stack_pointer`. -/
def exceptionCommon (handled active : Bool) (scratch : Gpr → UInt64) (resume : UInt64) (s : Stub) :
    StubExit :=
  let s := s.set .rdi s.rsp
  let s := s.call (cpuExceptionDispatch handled active s.stack) scratch
  if s.gpr .rax = 2 then .user (s.drop 2).iretq
  else if s.gpr .rax = 0 then .halt
  else .resume resume

/-- `exception14_handler`, entered from user code on the stack `rsp` -/
def exception14Handler (handled active : Bool) (scratch : Gpr → UInt64) (resume : UInt64)
    (u : UserContext) (errorCode rsp : UInt64) (stack : Words) : StubExit :=
  let s := (Stub.interrupt u rsp stack).pushValue errorCode
  exceptionCommon handled active scratch resume (s.pushValue 14)

/-! ## The start of a forked child -/

/-- `fork_enter_user_mode`.  `label` is the address of its `.resume`, and `childStack` what lies
above the top of the child's kernel stack.  The second value is what is stored through `r8`. -/
def forkEnterUserMode (label : UInt64) (childStack : Words) (s : Stub) : UserContext × UInt64 :=
  let s := s.pushAll [.rbx, .rbp, .r12, .r13, .r14, .r15]
  let s := (s.set .rax label).push .rax
  let resumeRsp := s.rsp
  let s := s.switch (s.gpr .rcx) childStack
  let s := s.pushValue userDataSelector
  let s := s.push .rsi
  let s := s.push .rdx
  let s := s.pushValue userCodeSelector
  let s := s.push .rdi
  let s := s.set .rax 0
  -- `mov ax, GDT_USER_DATA_SELECTOR | 3` for the segment registers
  let s := s.set .rax (s.gpr .rax &&& ~~~0xFFFF ||| userDataSelector)
  (s.iretq, resumeRsp)

/-- The call of `fork_enter_user_mode` at the end of `exec_run_child`, for a child with the given
registers.  The other registers are the kernel's. -/
def execRunChildEnter (regs : Regs) (stackTop slot label : UInt64) (childStack : Words)
    (s : Stub) : UserContext :=
  let s := ((((s.set .rdi regs.rip).set .rsi regs.rsp).set .rdx regs.rflags).set .rcx stackTop).set .r8 slot
  (forkEnterUserMode label childStack s).1

/-! ## System calls -/

def frameGprs : List Gpr :=
  [.rax, .rbx, .rcx, .rdx, .rsi, .rdi, .rbp, .r8, .r9, .r10, .r11, .r12, .r13, .r14, .r15]

structure SyscallResult (K : Type) where
  value : UInt64
  kernel : K
  /-- the system calls that processes run by this one made through `syscall_entry`, with their
  values, in order -/
  entries : List (UserContext × UInt64)

structure Dispatcher (K : Type) where
  dispatch : Words → K → SyscallResult K
  scratch : Gpr → UInt64
  completed : K → Bool
  /-- `exec_resume_stack_pointer` -/
  resume : K → UInt64

structure GateState (K : Type) where
  kernel : K
  userRsp : UInt64
  kernelStack : UInt64
  above : Words

/-- `SYS_FORK` -/
def sysForkNumber : UInt64 := 81

section

variable {K : Type} (d : Dispatcher K) (u : UserContext) (g : GateState K)

/-- The registers behind a `SYSCALL`. -/
def syscallGpr : Gpr → UInt64 := Function.update (Function.update u.gpr .rcx u.rip) .r11 u.rflags

/-- The frame that `syscall_interrupt_handler` hands to the kernel. -/
def interruptFrame (rsp : UInt64) (stack : Words) : Stub :=
  let s := (Stub.interrupt u rsp stack).pushAll frameGprs.reverse
  s.set .rdi s.rsp

/-- The frame that `syscall_entry` hands to the kernel. -/
def syscallFrame : Stub :=
  let s := (Stub.mk (syscallGpr u) g.kernelStack g.above).pushAll frameGprs.reverse
  s.set .rdi s.rsp

/-- What the calls of other processes through `syscall_entry` leave in `g_syscall_user_rsp`. -/
def nestedRsp (entries : List (UserContext × UInt64)) (rsp : UInt64) : UInt64 :=
  match entries.getLast? with
  | some (e, _) => e.rsp
  | none => rsp

/-- What they leave on the stack at `g_syscall_kernel_stack`, which they use from its top on as
well.  The frames of the compiled functions further below are taken to survive. -/
def nestedStack (entries : List (UserContext × UInt64)) (s : Stub) : Stub :=
  match entries.getLast? with
  | some (e, v) => { s with stack := ((syscallFrame e g).setTop v).stack }
  | none => s

/-- `syscall_interrupt_handler`, entered on the stack `rsp` -/
def syscallInterruptHandler (rsp : UInt64) (stack : Words) : StubExit × GateState K :=
  let s := interruptFrame u rsp stack
  let r := d.dispatch s.stack g.kernel
  let s := s.call r.value d.scratch
  let g := { g with kernel := r.kernel, userRsp := nestedRsp r.entries g.userRsp }
  let s := s.push .rax
  let s := s.call (if d.completed g.kernel then 1 else 0) d.scratch
  let done := (s.gpr .rax).toUInt8 != 0
  let s := s.pop .rax
  if done then (.resume (d.resume g.kernel), g)
  else
    let s := s.setTop (s.gpr .rax)
    ((.user (s.popAll frameGprs).iretq), g)

/-- `syscall_entry`.  `sysret` without a prefix returns to 32-bit code at `ecx`. -/
def syscallEntry : StubExit × GateState K :=
  let g := { g with userRsp := u.rsp }
  let s := syscallFrame u g
  let r := d.dispatch s.stack g.kernel
  let s := s.call r.value d.scratch
  let s := nestedStack g r.entries s
  let g := { g with kernel := r.kernel, userRsp := nestedRsp r.entries g.userRsp }
  let s := s.setTop (s.gpr .rax)
  let s := s.popAll frameGprs
  (.compat { gpr := s.gpr, rip := s.gpr .rcx &&& 0xFFFFFFFF, cs := 0x1B, rflags := s.gpr .r11 &&& 0x3C7FD7 ||| 2,
             rsp := g.userRsp, ss := 0x23 }, g)

end

end Monios.Model
