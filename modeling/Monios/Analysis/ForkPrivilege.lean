import Monios.Library.Run
import Monios.Model.EntryStubs

/-!
# What a forked process is allowed to do

`sys_fork` copies the user and group ids of the parent, but the privilege level, the image flags,
the program path and the working directory live in the execution context, and `exec_run_child`
builds the child's context from zeroed memory (exec.c:2689-2694). A zero privilege level is
`EXEC_PRIV_R0`.
-/

set_option autoImplicit false

namespace Monios.Analysis.ForkPrivilege

open Monios.Library Monios.Model

variable {k k' : Kernel} {i : Fin 64}

structure Credentials where
  privilegeLevel : UInt32
  imageFlags : UInt32
  programPath : String
  cwd : String

def credentials (k : Kernel) : Credentials :=
  ⟨execCurrentPrivilegeLevel k, execCurrentImageFlags k, execCurrentProgramPath k, execCurrentCwd k⟩

/-- The credentials of a zeroed execution context: `EXEC_PRIV_R0`, no image flags,
and the root directory for both paths. -/
def zeroedCredentials : Credentials := ⟨execPrivR0, 0, pathRoot, pathRoot⟩

structure Traced where
  kernel : Kernel
  forkedIn : Fin 64 → Option Kernel
  running : List (Option Kernel)

def afterFork (t : Traced) (r : Int × Option (Fin 64) × Kernel) : Traced :=
  { t with
    kernel := r.2.2
    forkedIn := match r.2.1 with
      | some i => Function.update t.forkedIn i (some t.kernel)
      | none => t.forkedIn }

/-- The trace after `sys_waitpid`: a child has been entered exactly when there is
one more suspended activation. -/
def afterWaitpid (t : Traced) (k : Kernel) : Traced :=
  { t with
    kernel := k
    running := match k.frames with
      | f :: rest => if rest.length = t.kernel.frames.length then t.forkedIn f.child :: t.running
          else t.running
      | [] => t.running }

def tracedStep (t : Traced) (a : ProcAction) : Option Traced :=
  match a with
  | .fork f vmOk stackOk => some (afterFork t (sysFork f vmOk stackOk t.kernel))
  | .waitpid pid ctxOk => some (afterWaitpid t (sysWaitpid pid ctxOk t.kernel))
  | .exit code => (procStep t.kernel (.exit code)).map fun k =>
    { t with kernel := k, running := t.running.tail }
  | .fault vector errorCode => (procStep t.kernel (.fault vector errorCode)).map fun k =>
    { t with kernel := k, running := t.running.tail }

def treeRoot (k : Kernel) : Traced := ⟨k, fun _ => none, []⟩

theorem poolAllocSlot_frame (h : poolAllocSlot k = some (i, k')) :
    k'.context = k.context ∧ k'.frames = k.frames := by
  unfold poolAllocSlot at h
  split at h
  · simp only [Option.some.injEq, Prod.mk.injEq] at h
    obtain ⟨-, rfl⟩ := h
    exact ⟨rfl, rfl⟩
  · cases h

theorem pcbClaimSlot_frame (h : pcbClaimSlot k = some (i, k')) :
    k'.context = k.context ∧ k'.frames = k.frames := by
  unfold pcbClaimSlot at h
  split at h
  · rename_i r hr
    simp only [Option.some.injEq] at h
    subst h
    exact poolAllocSlot_frame hr
  · split at h
    · have hframe := poolAllocSlot_frame h
      exact ⟨hframe.1, hframe.2⟩
    · cases h

theorem pcbCreateChild_frame {pid : Int} (h : pcbCreateChild pid k = some (i, k')) :
    k'.context = k.context ∧ k'.frames = k.frames := by
  unfold pcbCreateChild at h
  split at h
  · cases h
  · rename_i j k₁ hk
    simp only [Option.some.injEq, Prod.mk.injEq] at h
    obtain ⟨-, rfl⟩ := h
    have hframe := pcbClaimSlot_frame hk
    exact ⟨hframe.1, hframe.2⟩

theorem sysFork_frame (f : SyscallFrame) (vmOk stackOk : Bool) (k : Kernel) :
    (sysFork f vmOk stackOk k).2.2.context = k.context ∧
      (sysFork f vmOk stackOk k).2.2.frames = k.frames := by
  unfold sysFork
  split
  · exact ⟨rfl, rfl⟩
  · split
    · exact ⟨rfl, rfl⟩
    · rename_i i k₁ hk
      have hframe := pcbCreateChild_frame hk
      dsimp only
      split
      · exact hframe
      · split <;> exact hframe

theorem pcbReapChild_frame {p c r e : Int} (h : pcbReapChild p c k = some (r, e, k')) :
    k'.context = k.context ∧ k'.frames = k.frames := by
  unfold pcbReapChild at h
  split at h
  · cases h
  · dsimp only at h
    split at h
    · simp only [Option.some.injEq, Prod.mk.injEq] at h
      obtain ⟨-, -, rfl⟩ := h
      exact ⟨rfl, rfl⟩
    · cases h

theorem waitpidCollect_frame (child waiter : Fin 64) (code : Int) (k : Kernel) :
    (waitpidCollect child waiter code k).context = k.context ∧
      (waitpidCollect child waiter code k).frames = k.frames := by
  unfold waitpidCollect
  dsimp only
  split
  · rename_i r hr
    have hframe := pcbReapChild_frame hr
    exact ⟨hframe.1, hframe.2⟩
  · exact ⟨rfl, rfl⟩

/-- `sys_waitpid` either leaves the context and the activations alone, or enters a
child: then there is one more activation, which keeps the context of the caller,
and the context in force is a zeroed one. -/
theorem sysWaitpid_frame (pid : Int) (ctxOk : Bool) (k : Kernel) :
    ((sysWaitpid pid ctxOk k).context = k.context ∧ (sysWaitpid pid ctxOk k).frames = k.frames) ∨
    ∃ f : ChildFrame, f.savedCtx = k.context ∧ (sysWaitpid pid ctxOk k).frames = f :: k.frames ∧
      (sysWaitpid pid ctxOk k).context = some { kernelStack := true } := by
  unfold sysWaitpid
  split
  · exact .inl ⟨rfl, rfl⟩
  · rename_i cur _
    dsimp only
    split
    · left
      split
      · rename_i r hr
        exact pcbReapChild_frame hr
      · exact ⟨rfl, rfl⟩
    · split
      · rename_i child _
        split
        · -- the child is entered
          rename_i k' hk
          right
          unfold execRunChild at hk
          dsimp only at hk
          split at hk
          · cases hk
          · rename_i hguard
            simp only [Option.some.injEq] at hk
            subst hk
            refine ⟨_, rfl, rfl, ?_⟩
            simp only [Bool.or_eq_true, Bool.not_eq_true', not_or, Bool.not_eq_false] at hguard
            simp only [hguard.1.2]
        · left
          exact waitpidCollect_frame _ _ _ _
      · left
        split <;> exact ⟨rfl, rfl⟩

theorem pcbWakeParent_frame (pid : Int) (p : Pcb) (k : Kernel) :
    (pcbWakeParent pid p k).context = k.context ∧ (pcbWakeParent pid p k).frames = k.frames := by
  unfold pcbWakeParent
  split
  · exact ⟨rfl, rfl⟩
  · dsimp only
    split
    · exact ⟨rfl, rfl⟩
    · exact ⟨rfl, rfl⟩

theorem pcbFinishProcess_frame (pid : Int) (s : PcbState) (code : Int) (k : Kernel) :
    (pcbFinishProcess pid s code k).context = k.context ∧
      (pcbFinishProcess pid s code k).frames = k.frames := by
  unfold pcbFinishProcess
  split
  · exact ⟨rfl, rfl⟩
  · dsimp only
    obtain ⟨hc, hf⟩ := pcbWakeParent_frame pid _ _
    refine ⟨hc.trans ?_, hf.trans ?_⟩
    · split <;> rfl
    · split <;> rfl

theorem sysExit_frames (code : Int) (k : Kernel) : (sysExit code k).frames = k.frames := by
  unfold sysExit execCompleteFromSyscall
  dsimp only
  split
  · exact (pcbFinishProcess_frame _ _ _ _).2
  · rfl

theorem returnToParent_frame (h : returnToParent k = some k') :
    ∃ f rest, k.frames = f :: rest ∧ k'.frames = rest ∧ k'.context = f.savedCtx := by
  unfold returnToParent at h
  split at h
  · rename_i f rest hf
    simp only [Option.some.injEq] at h
    subst h
    refine ⟨f, rest, hf, ?_, ?_⟩
    · unfold resumeParent
      dsimp only
      rw [(waitpidCollect_frame _ _ _ _).2]
      split <;> rfl
    · unfold resumeParent
      dsimp only
      rw [(waitpidCollect_frame _ _ _ _).1]
      split <;> rfl
  · cases h

def SeenZeroed (c : Option ExecContext) : Prop :=
  ∃ ctx, c = some ctx ∧ ctx.privilegeLevel = 0 ∧ ctx.imageFlags = 0 ∧ ctx.programPath = "" ∧ ctx.cwd = ""

theorem credentials_of_seenZeroed {k : Kernel} (h : SeenZeroed k.context) :
    credentials k = zeroedCredentials := by
  obtain ⟨ctx, hc, hp, hi, hpp, hcwd⟩ := h
  unfold credentials execCurrentPrivilegeLevel execCurrentImageFlags execCurrentProgramPath execCurrentCwd
  simp only [hc, hp, hi, hpp, hcwd, if_true]
  rfl

/-- Every context in force while a child runs, and every context saved by an
activation that was itself entered from a child, is seen as a zeroed one; only the
outermost activation holds the context of the root of the tree. -/
def Inv (t : Traced) : Prop :=
  t.running.length = t.kernel.frames.length ∧
  (t.kernel.frames ≠ [] → SeenZeroed t.kernel.context) ∧
  ∀ f ∈ t.kernel.frames.dropLast, SeenZeroed f.savedCtx

theorem treeRoot_inv {k : Kernel} (h : k.frames = []) : Inv (treeRoot k) := by
  unfold Inv treeRoot
  simp [h]

/-- A completed child leaves the invariant in place: the context that comes back is
either that of the root, when no activation is left, or one saved by a child. -/
theorem inv_pop {t : Traced} (hinv : Inv t) (hframes : k.frames = t.kernel.frames)
    (h : returnToParent k = some k') : Inv { t with kernel := k', running := t.running.tail } := by
  obtain ⟨hlen, -, hsaved⟩ := hinv
  obtain ⟨f, rest, hf, hrest, hctx⟩ := returnToParent_frame h
  rw [hframes] at hf
  rw [hf] at hlen hsaved
  refine ⟨?_, ?_, ?_⟩
  · simp only [List.length_tail, hrest, hlen, List.length_cons, Nat.add_sub_cancel]
  · intro hne
    rw [hrest] at hne
    rw [hctx]
    apply hsaved
    rw [List.dropLast_cons_of_ne_nil hne]
    exact List.mem_cons_self
  · intro g hg
    rw [hrest] at hg
    apply hsaved
    cases rest with
    | nil => simp at hg
    | cons r rest =>
      rw [List.dropLast_cons_of_ne_nil (List.cons_ne_nil _ _)]
      exact List.mem_cons_of_mem _ hg

theorem tracedStep_inv (t : Traced) (a : ProcAction) (t' : Traced) (hinv : Inv t)
    (h : tracedStep t a = some t') : Inv t' := by
  cases a with
  | fork f vmOk stackOk =>
    simp only [tracedStep, Option.some.injEq] at h
    subst h
    obtain ⟨hc, hf⟩ := sysFork_frame f vmOk stackOk t.kernel
    unfold Inv afterFork
    dsimp only
    rw [hc, hf]
    exact hinv
  | waitpid pid ctxOk =>
    simp only [tracedStep, Option.some.injEq] at h
    subst h
    obtain ⟨hlen, hzero, hsaved⟩ := hinv
    rcases sysWaitpid_frame pid ctxOk t.kernel with ⟨hc, hf⟩ | ⟨f, hsave, hf, hc⟩
    · unfold Inv afterWaitpid
      dsimp only
      rw [hc, hf]
      refine ⟨?_, hzero, hsaved⟩
      cases hk : t.kernel.frames with
      | nil => simpa [hk] using hlen
      | cons g rest =>
        -- no activation was added, so the ghost stack did not grow
        have hne : rest.length ≠ (g :: rest).length := by simp
        simp only [if_neg hne]
        rw [hlen, hk]
    · unfold Inv afterWaitpid
      dsimp only
      rw [hf, hc]
      refine ⟨?_, ?_, ?_⟩
      · simp [hlen]
      · intro _
        exact ⟨_, rfl, rfl, rfl, rfl, rfl⟩
      · intro g hg
        cases hk : t.kernel.frames with
        | nil => simp [hk] at hg
        | cons r rest =>
          rw [hk, List.dropLast_cons_of_ne_nil (List.cons_ne_nil _ _)] at hg
          rcases List.mem_cons.mp hg with rfl | hg
          · rw [hsave]
            exact hzero (by simp [hk])
          · exact hsaved g (by rw [hk]; exact hg)
  | exit code =>
    simp only [tracedStep, procStep, Option.map_eq_some_iff] at h
    obtain ⟨k', hk, rfl⟩ := h
    exact inv_pop hinv (sysExit_frames code t.kernel) hk
  | fault vector errorCode =>
    simp only [tracedStep, procStep, Option.map_eq_some_iff] at h
    obtain ⟨k', hk, rfl⟩ := h
    have hframes : (execAbortFromException vector errorCode t.kernel).frames =
        t.kernel.frames := rfl
    exact inv_pop hinv hframes hk

theorem runningChild_credentials {k : Kernel} (h0 : k.frames = []) {as : List ProcAction}
    {t : Traced} (hrun : Run tracedStep (treeRoot k) as t) {g : Option Kernel}
    {rest : List (Option Kernel)} (hg : t.running = g :: rest) : SeenZeroed t.kernel.context := by
  obtain ⟨hlen, hzero, -⟩ := hrun.invariant tracedStep_inv (treeRoot_inv h0)
  apply hzero
  intro hnil
  rw [hg, hnil] at hlen
  simp at hlen

/-- The process running in `k` is seen as the process that forked it was seen in
`g`, and is allowed nothing that process was refused. -/
def Inherits (k g : Kernel) : Prop :=
  credentials k = credentials g ∧ ∀ c : GatedCall, gateAllows k c = true → gateAllows g c = true

theorem gateAllows_of_r0 {g : Kernel} (h : execCurrentPrivilegeLevel g = execPrivR0)
    (c : GatedCall) (hc : c ≠ .requestR0) : gateAllows g c = true := by
  cases c with
  | writePath home path => simp [gateAllows, syscallPathWriteAllowed, h, execPrivR0, execPrivR2]
  | readPath path => simp [gateAllows, syscallPathReadAllowed, h, execPrivR0, execPrivR2]
  | elevated => simp [gateAllows, syscallElevatedAllowed, h, execPrivR0, execPrivR2]
  | signalOther => simp [gateAllows, syscallSignalOtherAllowed, h, execPrivR0, execPrivR2]
  | requestR0 => exact absurd rfl hc

/-- For every tree of forks and every forked child that runs in it: the child is
seen as its forking process was, and gains nothing, exactly when that process was
itself seen with the credentials of a zeroed context. -/
theorem forkedChild_inherits_iff (k : Kernel) (h0 : k.frames = []) (as : List ProcAction)
    (t : Traced) (hrun : Run tracedStep (treeRoot k) as t) (g : Kernel)
    (rest : List (Option Kernel)) (hg : t.running = some g :: rest) :
    Inherits t.kernel g ↔ credentials g = zeroedCredentials := by
  have hzero := runningChild_credentials h0 hrun hg
  have hcred := credentials_of_seenZeroed hzero
  constructor
  · rintro ⟨heq, -⟩
    rw [← heq, hcred]
  · intro hgz
    refine ⟨by rw [hcred, hgz], ?_⟩
    intro c hc
    have hlevel : execCurrentPrivilegeLevel g = execPrivR0 :=
      congrArg Credentials.privilegeLevel hgz
    apply gateAllows_of_r0 hlevel
    rintro rfl
    -- the child has no image flags, so it was not given R0 either
    obtain ⟨ctx, hctx, -, hflags, -, -⟩ := hzero
    simp [gateAllows, syscallRequestR0Allowed, execCurrentImageFlags, hctx, hflags,
      execImageFlagDriver] at hc

def userRoot : Kernel where
  pcbs := fun i => if i = 0 then { used := true, pid := 1, state := .running } else {}
  pool := fun i => i = 0
  nextPid := 2
  currentPid := 1
  context := some { privilegeLevel := execPrivR3, kernelStack := true }
  frames := []

def userForked : Traced := afterFork (treeRoot userRoot) (sysFork (fun _ => 0) true true userRoot)

def userChildRuns : Traced := afterWaitpid userForked (sysWaitpid (-1) true userForked.kernel)

theorem userChildRuns_run : Run tracedStep (treeRoot userRoot) [.fork (fun _ => 0) true true, .waitpid (-1) true]
      userChildRuns :=
  .cons rfl (.cons rfl (.nil _))

theorem userChildRuns_running : userChildRuns.running = [some userRoot] := rfl

theorem forkedChild_inherits_iff_userRoot :
    Inherits userChildRuns.kernel userRoot ↔ credentials userRoot = zeroedCredentials :=
  forkedChild_inherits_iff userRoot rfl _ userChildRuns userChildRuns_run userRoot [] userChildRuns_running

/-- The child of the unprivileged program is let through a gate at which the program
itself is turned away, so it is not true that forked children inherit. -/
theorem not_forkedChild_inherits :
    (gateAllows userRoot .elevated = false ∧ gateAllows userChildRuns.kernel .elevated = true) ∧
    ¬ ∀ (k : Kernel) (as : List ProcAction) (t : Traced) (g : Kernel) (rest : List (Option Kernel)),
        k.frames = [] → Run tracedStep (treeRoot k) as t → t.running = some g :: rest →
        Inherits t.kernel g := by
  have hparent : gateAllows userRoot .elevated = false := by decide
  have hchild : gateAllows userChildRuns.kernel .elevated = true := by decide
  refine ⟨⟨hparent, hchild⟩, ?_⟩
  intro hall
  have hinh := hall userRoot _ userChildRuns userRoot [] rfl userChildRuns_run userChildRuns_running
  have hgain := hinh.2 .elevated hchild
  rw [hparent] at hgain
  cases hgain

end Monios.Analysis.ForkPrivilege
