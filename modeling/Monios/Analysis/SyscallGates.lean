import Monios.Model.EntryStubs

/-!
# The registers of user code across the kernel

`exception_common` saves no registers, so that a page fault that the kernel resolves goes back to
the instruction with the registers the compiled dispatcher left behind
(`exception14Handler_resolved`). The entry of a forked child loads its instruction pointer, stack
pointer and flags, and no other register of the saved frame; `RAX` holds the selector of the user's
data segment (`execRunChildEnter_gpr`).
-/

set_option autoImplicit false

namespace Monios.Analysis

open Monios.Library Monios.Model

def resolvedGpr (scratch : Gpr → UInt64) (r : Gpr) : UInt64 := if r = .rax then 2 else scratch r

section

variable {u : UserContext} {scratch : Gpr → UInt64}

theorem cpuExceptionDispatch_resolved (active : Bool) (hcs : u.cs &&& 3 = 3)
    (errorCode rsp : UInt64) (stack : Words) :
    cpuExceptionDispatch true active
      (((Stub.interrupt u rsp stack).pushValue errorCode).pushValue 14).stack = 2 := by
  have hvector : (((Stub.interrupt u rsp stack).pushValue errorCode).pushValue 14).stack 0 = 14 :=
    rfl
  have hframe : (((Stub.interrupt u rsp stack).pushValue errorCode).pushValue 14).stack 3 = u.cs :=
    rfl
  unfold cpuExceptionDispatch
  simp [hvector, hframe, hcs]

theorem exception14Handler_resolved (active : Bool) (resume errorCode rsp : UInt64) (stack : Words)
    (hcs : u.cs &&& 3 = 3) : exception14Handler true active scratch resume u errorCode rsp stack =
      .user { u with gpr := fun r => if r.callerSaved then resolvedGpr scratch r else u.gpr r } := by
  have hdispatch := cpuExceptionDispatch_resolved active hcs errorCode rsp stack
  unfold exception14Handler exceptionCommon
  simp only [Stub.set, hdispatch]
  rw [if_pos (by simp [Stub.call])]
  congr 1
  unfold Stub.iretq Stub.drop Stub.call
  congr 1
  funext r
  cases r <;> rfl

def FaultInvisible (scratch : Gpr → UInt64) (u : UserContext) : Prop :=
  ∀ (active : Bool) (resume errorCode rsp : UInt64) (stack : Words),
    exception14Handler true active scratch resume u errorCode rsp stack = .user u

theorem faultInvisible_iff (hcs : u.cs &&& 3 = 3) :
    FaultInvisible scratch u ↔ ∀ r :
    Gpr, r.callerSaved = true → u.gpr r = resolvedGpr scratch r := by
  constructor
  · intro h r hr
    have hu := h false 0 0 0 (fun _ => 0)
    rw [exception14Handler_resolved false _ _ _ _ hcs] at hu
    have hgpr := congrArg UserContext.gpr (StubExit.user.inj hu)
    have := congrFun hgpr r
    simp only [hr, if_true] at this
    exact this.symm
  · intro h active resume errorCode rsp stack
    rw [exception14Handler_resolved active _ _ _ _ hcs]
    congr
    funext r
    split
    · next hr => exact (h r hr).symm
    · rfl

end

attribute [local instance] neZero_frame in
def frameGpr (f : SyscallFrame) : Gpr → UInt64
  | .rax => f 0
  | .rbx => f 1
  | .rcx => f 2
  | .rdx => f 3
  | .rsi => f 4
  | .rdi => f 5
  | .rbp => f 6
  | .r8 => f 7
  | .r9 => f 8
  | .r10 => f 9
  | .r11 => f 10
  | .r12 => f 11
  | .r13 => f 12
  | .r14 => f 13
  | .r15 => f 14

def childGpr (regs : Regs) (stackTop slot : UInt64) (k : Gpr → UInt64) : Gpr → UInt64
  | .rax => userDataSelector
  | .rdi => regs.rip
  | .rsi => regs.rsp
  | .rdx => regs.rflags
  | .rcx => stackTop
  | .r8 => slot
  | r => k r

theorem execRunChildEnter_gpr (regs : Regs) (stackTop slot label : UInt64) (childStack : Words)
    (s : Stub) :
    (execRunChildEnter regs stackTop slot label childStack s).gpr =
      childGpr regs stackTop slot s.gpr := by
  have hselector : (0 &&& ~~~0xFFFF ||| userDataSelector : UInt64) = userDataSelector := by decide
  funext r
  cases r
  case rax => exact hselector
  all_goals rfl

theorem execRunChildEnter_frame (regs : Regs) (stackTop slot label : UInt64) (childStack : Words)
    (s : Stub) :
    (execRunChildEnter regs stackTop slot label childStack s).rip = regs.rip ∧
      (execRunChildEnter regs stackTop slot label childStack s).rsp = regs.rsp ∧
      (execRunChildEnter regs stackTop slot label childStack s).rflags = regs.rflags :=
  ⟨rfl, rfl, rfl⟩

structure ChildFaithful (f : SyscallFrame) (u : UserContext) : Prop where
  rip : u.rip = f 15
  rsp : u.rsp = f 18
  rflags : u.rflags = f 17
  rax : u.gpr .rax = 0
  gpr : ∀ r, r ≠ .rax → u.gpr r = frameGpr f r

/-- A resolved page fault does not show in exactly the register files that already hold, in the
registers a compiled function need not keep, what the dispatcher leaves there; `RAX` is then 2.  A
forked child starts at the right place, and never with the registers of the frame. -/
theorem userRegisters_survive (scratch : Gpr → UInt64) : (∀ u : UserContext, u.cs &&& 3 = 3 →
      (FaultInvisible scratch u ↔ ∀ r : Gpr, r.callerSaved = true →
        u.gpr r = resolvedGpr scratch r)) ∧
    ∀ (f : SyscallFrame) (stackTop slot label : UInt64) (childStack : Words) (s : Stub),
      let u := execRunChildEnter (forkRegs f) stackTop slot label childStack s
      (u.rip = f 15 ∧ u.rsp = f 18 ∧ u.rflags = f 17) ∧ u.gpr .rax = userDataSelector ∧ ¬ ChildFaithful f u := by
  refine ⟨fun u hcs => faultInvisible_iff hcs, ?_⟩
  intro f stackTop slot label childStack s u
  have hrax : u.gpr .rax = userDataSelector := by
    rw [execRunChildEnter_gpr]
    rfl
  refine ⟨execRunChildEnter_frame _ _ _ _ _ _, hrax, fun h => ?_⟩
  have hzero := h.rax
  rw [hrax] at hzero
  exact absurd hzero (by decide)

def userWith (rax : UInt64) : UserContext where
  gpr := fun r => if r = .rax then rax else 0
  rip := 0x04000000
  cs := userCodeSelector
  rflags := 0x202
  rsp := 0x043B0000
  ss := userDataSelector

theorem userRegisters_survive_two : FaultInvisible (fun _ => 0) (userWith 2) ∧
      ¬ ChildFaithful (fun _ => 0)
        (execRunChildEnter (forkRegs fun _ => 0) 0 0 0 (fun _ => 0) ⟨fun _ => 0, 0, fun _ => 0⟩) :=
  ⟨((userRegisters_survive fun _ => 0).1 (userWith 2) (by decide)).mpr fun _ _ => rfl,
    ((userRegisters_survive fun _ => 0).2 (fun _ => 0) 0 0 0 (fun _ => 0) ⟨fun _ => 0, 0, fun _ => 0⟩).2.2⟩

/-- A program that faults with 7 in `RAX` goes on with 2 there, and a child starts with a selector
in `RAX`. -/
theorem not_userRegisters_survive : ¬ FaultInvisible (fun _ => 0) (userWith 7) ∧
      ¬ ∀ (f : SyscallFrame) (stackTop slot label : UInt64) (childStack : Words) (s : Stub),
        ChildFaithful f (execRunChildEnter (forkRegs f) stackTop slot label childStack s) := by
  constructor
  · rw [faultInvisible_iff (by decide)]
    intro h
    have hrax := h .rax rfl
    revert hrax
    decide
  · intro h
    have hrax := (h (fun _ => 0) 0 0 0 (fun _ => 0) ⟨fun _ => 0, 0, fun _ => 0⟩).rax
    rw [execRunChildEnter_gpr] at hrax
    revert hrax
    decide

end Monios.Analysis

/-!
# The two system-call gates

What `syscall_interrupt_handler` and `syscall_entry` do around one dispatcher. The first goes back
to user code with the value of the call in `RAX` and everything else as it was, or to the kernel
when the call completed the process (`syscallInterruptHandler_eq`).
-/

namespace Monios.Analysis

open Monios.Library Monios.Model

structure SameRegisters (u v : UserContext) : Prop where
  rip : v.rip = u.rip
  rsp : v.rsp = u.rsp
  gpr : ∀ r, r ≠ .rcx → r ≠ .r11 → v.gpr r = u.gpr r

def SameOutcome : StubExit → StubExit → Prop
  | .user u, .user v => SameRegisters u v
  | .resume a, .resume b => a = b
  | .halt, .halt => True
  | _, _ => False

def SameOutcomeButMode : StubExit → StubExit → Prop
  | .user u, .compat v => SameRegisters u v
  | a, b => SameOutcome a b

section

variable {K : Type} (d : Dispatcher K) (u : UserContext) (g : GateState K) (rsp : UInt64) (stack : Words)

structure GatesAgree (same : StubExit → StubExit → Prop) : Prop where
  kernel : (syscallEntry d u g).2.kernel = (syscallInterruptHandler d u g rsp stack).2.kernel
  outcome : same (syscallInterruptHandler d u g rsp stack).1 (syscallEntry d u g).1
  fork : u.gpr .rax = sysForkNumber →
    (syscallFrame u g).stack 15 = u.rip ∧ (syscallFrame u g).stack 17 = u.rflags ∧ (syscallFrame u g).stack 18 = u.rsp

def interruptResult : SyscallResult K := d.dispatch (interruptFrame u rsp stack).stack g.kernel

/-- What it answers behind the other one, where the frame holds the instruction pointer and the
flags for `RCX` and `R11`, and continues with what is above `g_syscall_kernel_stack`. -/
def syscallResult : SyscallResult K := d.dispatch (syscallFrame u g).stack g.kernel

def lastOnStack (entries : List (UserContext × UInt64)) : UserContext :=
  match entries.getLast? with
  | some (e, _) => e
  | none => u

def sysretContext (last : UserContext) (value : UInt64) : UserContext where
  gpr := Function.update (syscallGpr last) .rax value
  rip := last.rip &&& 0xFFFFFFFF
  cs := 0x1B
  rflags := last.rflags &&& 0x3C7FD7 ||| 2
  rsp := last.rsp
  ss := 0x23

/-- The call answers the same on both frames, does not complete the process, leaves the caller's
frame (or an equal one) on the shared stack, and a fork finds the caller's state above that stack.
-/
structure GateSafe : Prop where
  kernel : (syscallResult d u g).kernel = (interruptResult d u g rsp stack).kernel
  value : (syscallResult d u g).value = (interruptResult d u g rsp stack).value
  running : d.completed (interruptResult d u g rsp stack).kernel = false
  rip : (lastOnStack u (syscallResult d u g).entries).rip &&& 0xFFFFFFFF = u.rip
  rsp : (lastOnStack u (syscallResult d u g).entries).rsp = u.rsp
  gpr : ∀ r, r ≠ .rax → r ≠ .rcx → r ≠ .r11 → (lastOnStack u (syscallResult d u g).entries).gpr r = u.gpr r
  fork : u.gpr .rax = sysForkNumber → g.above 0 = u.rip ∧ g.above 2 = u.rflags ∧ g.above 3 = u.rsp

end

theorem gpr_popAll_frame {p s : Stub} {v : UInt64}
    (h : s.stack = ((p.pushAll frameGprs.reverse).setTop v).stack) :
    (s.popAll frameGprs).gpr = Function.update p.gpr .rax v := by
  have hword : ∀ (i : Nat) (hi : i < frameGprs.length), (s.popAll frameGprs).gpr (frameGprs.get ⟨i, hi⟩) =
      if i = 0 then v else p.gpr (frameGprs.get ⟨i, hi⟩) := by
    intro i hi
    rw [Stub.gpr_popAll (by decide) hi, h]
    simp only [Stub.setTop]
    split
    · rfl
    · exact Stub.word_pushAll hi
  funext r
  cases r with
  | rax => exact hword 0 (by decide)
  | rbx => exact hword 1 (by decide)
  | rcx => exact hword 2 (by decide)
  | rdx => exact hword 3 (by decide)
  | rsi => exact hword 4 (by decide)
  | rdi => exact hword 5 (by decide)
  | rbp => exact hword 6 (by decide)
  | r8 => exact hword 7 (by decide)
  | r9 => exact hword 8 (by decide)
  | r10 => exact hword 9 (by decide)
  | r11 => exact hword 10 (by decide)
  | r12 => exact hword 11 (by decide)
  | r13 => exact hword 12 (by decide)
  | r14 => exact hword 13 (by decide)
  | r15 => exact hword 14 (by decide)

theorem stack_popAll_frame {p s : Stub} {v : UInt64}
    (h : s.stack = ((p.pushAll frameGprs.reverse).setTop v).stack) (i : Nat) :
    (s.popAll frameGprs).stack i = p.stack i := by
  rw [Stub.stack_popAll, h]
  have hlen : frameGprs.length + i ≠ 0 := by simp [frameGprs]
  simp only [Stub.setTop, if_neg hlen]
  exact Stub.word_pushAll_add frameGprs.reverse i

section

variable {K : Type} (d : Dispatcher K) (u : UserContext) (g : GateState K) (rsp : UInt64) (stack : Words)

theorem syscallInterruptHandler_eq : syscallInterruptHandler d u g rsp stack =
      (if d.completed (interruptResult d u g rsp stack).kernel then
          .resume (d.resume (interruptResult d u g rsp stack).kernel)
        else .user { u with gpr := Function.update u.gpr .rax (interruptResult d u g rsp stack).value },
        { g with kernel := (interruptResult d u g rsp stack).kernel,
                 userRsp := nestedRsp (interruptResult d u g rsp stack).entries g.userRsp }) := by
  simp only [syscallInterruptHandler]
  rw [show d.dispatch (interruptFrame u rsp stack).stack g.kernel = interruptResult d u g rsp stack from rfl]
  generalize interruptResult d u g rsp stack = r
  cases hdone : d.completed r.kernel with
  | true => simp [Stub.call]
  | false =>
    -- the frame is the one that was pushed, with the value of the call in its first word
    generalize hs : Stub.setTop _ _ = s
    have hstack : s.stack = (((Stub.interrupt u rsp stack).pushAll frameGprs.reverse).setTop r.value).stack := by
      rw [← hs]
      rfl
    have hframe := stack_popAll_frame hstack
    simp only [Stub.call, if_true, if_false, Bool.false_eq_true]
    rw [if_neg (by decide)]
    unfold Stub.iretq
    rw [gpr_popAll_frame hstack]
    simp only [hframe]
    rfl

theorem syscallFrame_stack_add (i : Nat) : (syscallFrame u g).stack (15 + i) = g.above i :=
  Stub.word_pushAll_add (s := ⟨syscallGpr u, g.kernelStack, g.above⟩) frameGprs.reverse i

theorem syscallEntry_eq : syscallEntry d u g =
      (.compat (sysretContext (lastOnStack u (syscallResult d u g).entries) (syscallResult d u g).value),
        { g with kernel := (syscallResult d u g).kernel,
                 userRsp := (lastOnStack u (syscallResult d u g).entries).rsp }) := by
  simp only [syscallEntry]
  rw [show d.dispatch (syscallFrame u { g with userRsp := u.rsp }).stack g.kernel = syscallResult d u g from rfl]
  generalize syscallResult d u g = r
  have hrsp : nestedRsp r.entries u.rsp = (lastOnStack u r.entries).rsp := by
    unfold nestedRsp lastOnStack
    cases r.entries.getLast? <;> rfl
  generalize hs : Stub.setTop _ _ = s
  have hstack : s.stack = (((Stub.mk (syscallGpr (lastOnStack u r.entries)) g.kernelStack g.above).pushAll
      frameGprs.reverse).setTop r.value).stack := by
    rw [← hs]
    unfold nestedStack lastOnStack
    cases r.entries.getLast? with
    | none => rfl
    | some e =>
      funext i
      simp only [Stub.setTop]
      split
      · rfl
      · rfl
  have hgpr := gpr_popAll_frame hstack
  rw [hgpr, hrsp]
  rfl

theorem sameRegisters_iff (last : UserContext) (value value' : UInt64) :
    SameRegisters { u with gpr := Function.update u.gpr .rax value } (sysretContext last value') ↔
      value' = value ∧ last.rip &&& 0xFFFFFFFF = u.rip ∧ last.rsp = u.rsp ∧
        ∀ r, r ≠ .rax → r ≠ .rcx → r ≠ .r11 → last.gpr r = u.gpr r := by
  constructor
  · intro h
    refine ⟨?_, h.rip, h.rsp, ?_⟩
    · simpa [sysretContext] using h.gpr .rax (by decide) (by decide)
    · intro r hrax hrcx hr11
      have hr := h.gpr r hrcx hr11
      simpa [sysretContext, syscallGpr, Function.update_of_ne, hrax, hrcx, hr11] using hr
  · rintro ⟨rfl, hrip, hrsp, hgpr⟩
    refine ⟨hrip, hrsp, fun r hrcx hr11 => ?_⟩
    by_cases hrax : r = .rax
    · simp [sysretContext, hrax]
    · simpa [sysretContext, syscallGpr, Function.update_of_ne, hrax, hrcx,
        hr11] using hgpr r hrax hrcx hr11

theorem not_sameOutcome : ¬ SameOutcome (syscallInterruptHandler d u g rsp stack).1 (syscallEntry d u g).1 := by
  rw [syscallEntry_eq]
  intro h
  cases hexit : (syscallInterruptHandler d u g rsp stack).1 with
  | user v => rw [hexit] at h; exact h
  | compat v => rw [hexit] at h; exact h
  | resume a => rw [hexit] at h; exact h
  | halt => rw [hexit] at h; exact h

theorem gatesAgree_butMode_iff :
    GatesAgree d u g rsp stack SameOutcomeButMode ↔ GateSafe d u g rsp stack := by
  have hfork : (syscallFrame u g).stack 15 = g.above 0 ∧ (syscallFrame u g).stack 17 = g.above 2 ∧
      (syscallFrame u g).stack 18 = g.above 3 :=
    ⟨syscallFrame_stack_add u g 0, syscallFrame_stack_add u g 2, syscallFrame_stack_add u g 3⟩
  have hint := syscallInterruptHandler_eq d u g rsp stack
  have hsys := syscallEntry_eq d u g
  constructor
  · rintro ⟨hkernel, houtcome, hf⟩
    rw [hint, hsys] at houtcome hkernel
    simp only at houtcome hkernel
    cases hdone : d.completed (interruptResult d u g rsp stack).kernel with
    | true =>
      rw [hdone] at houtcome
      exact absurd houtcome (by simp [SameOutcomeButMode, SameOutcome])
    | false =>
      rw [hdone] at houtcome
      obtain ⟨hvalue, hrip, hrsp, hgpr⟩ := (sameRegisters_iff u _ _ _).mp houtcome
      refine ⟨hkernel, hvalue, hdone, hrip, hrsp, hgpr, ?_⟩
      rw [hfork.1, hfork.2.1, hfork.2.2] at hf
      exact hf
  · intro h
    refine ⟨?_, ?_, ?_⟩
    · rw [hint, hsys]
      exact h.kernel
    · rw [hint, hsys]
      simp only [h.running]
      exact (sameRegisters_iff u _ _ _).mpr ⟨h.value, h.rip, h.rsp, h.gpr⟩
    · rw [hfork.1, hfork.2.1, hfork.2.2]
      exact h.fork

/-- The gates agree on no system call, since user code goes on as 32-bit code behind
`syscall_entry`.  Apart from that they agree on exactly the calls that are safe to make there. -/
theorem gatesAgree_iff : ¬ GatesAgree d u g rsp stack SameOutcome ∧
      (GatesAgree d u g rsp stack SameOutcomeButMode ↔ GateSafe d u g rsp stack) :=
  ⟨fun h => not_sameOutcome d u g rsp stack h.outcome, gatesAgree_butMode_iff d u g rsp stack⟩

end

def exitDispatcher : Dispatcher Kernel where
  dispatch := fun _ k => ⟨0, sysExit 0 k, []⟩
  scratch := fun _ => 0
  completed := fun k => k.context.any (·.completed)
  resume := fun _ => 0

def runningGate : GateState Kernel where
  kernel :=
    { pcbs := fun _ => {}, pool := fun _ => false, nextPid := 1, currentPid := -1, context := some {}, frames := [] }
  userRsp := 0
  kernelStack := 0x200000
  above := fun _ => 0

def exitingUser : UserContext where
  gpr := fun r => if r = .rax then 17 else 0
  rip := 0x04001000
  cs := userCodeSelector
  rflags := 0x202
  rsp := 0x043B0000
  ss := userDataSelector

theorem not_gatesAgree_exit :
    ¬ GatesAgree exitDispatcher exitingUser runningGate 0x300000 (fun _ => 0) SameOutcomeButMode ∧
      ¬ GatesAgree exitDispatcher exitingUser runningGate 0x300000 (fun _ => 0) SameOutcome := by
  refine ⟨fun h => ?_, fun h => not_sameOutcome _ _ _ _ _ h.outcome⟩
  have hsafe := (gatesAgree_butMode_iff _ _ _ _ _).mp h
  have hrunning := hsafe.running
  revert hrunning
  decide

end Monios.Analysis
