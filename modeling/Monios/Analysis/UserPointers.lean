import Monios.Analysis.CheckedPointers

/-!
# System calls that follow unchecked pointers

Eleven system calls reach memory through a pointer that was not checked, or not for the length that
is transferred: the status commands of the caches, the I/O scheduler and the GPU, the debugger, the
printers, `SYS_WAITPID`, the query string of `SYS_EXEC_CAPTURE`, the sectors of `SYS_BACKUP_CTL`,
whose length is checked in 32 bits, and the memory test, whose window an earlier request has set.
-/

set_option autoImplicit false

namespace Monios.Analysis

open Monios.Library Monios.Model Monios.Model.Syscalls

variable {a : UInt64} {n : Nat} {dst src : UInt64} {f : Syscalls.SyscallFrame}

/-- What decides where a system call reaches, beside its arguments: the memory, the breakpoints, the
privilege level, the session of the memory test and the bitmap of the frames. -/
structure SysView where
  memory : Memory
  swBp : List (Option SwBreakpoint)
  privilegeLevel : UInt32
  memtest : Memtest.Session
  frameBits : Frame.Bits

def viewOf (w : SysWorld) : SysView := ⟨w.memory, w.swBp, w.privilegeLevel, w.memtest, w.frameBits⟩

/-- Whatever the rest of the state, all accesses are to user memory. -/
def SafeAt {α : Type} (v : SysView) (p : Sys α) : Prop :=
  ∀ w : SysWorld, viewOf w = v → ∀ e ∈ p.log w, TouchesUser e

variable {α : Type} {v : SysView}

/-- Every access of a safe call is to memory of the user. -/
theorem Safe.touches {p : Sys α} (h : Safe p) {w : SysWorld} {e : SysEvent} (he : e ∈ p.log w) :
    TouchesUser e :=
  (h w trivial).2 e he

/-- What is safe in every state is safe in this one. -/
theorem Safe.at {p : Sys α} (h : Safe p) : SafeAt v p := fun _ _ _ he => h.touches he

def steadyWorld (v : SysView) (answers : KernelCall → Answer) : SysWorld where
  memory := v.memory
  swBp := v.swBp
  privilegeLevel := v.privilegeLevel
  memtest := v.memtest
  frameBits := v.frameBits
  imageFlags := 0
  cwd := ⟨[], zero_notMem_nil⟩
  programPath := []
  home := none
  oracle := fun _ c => (answers c, id)
  calls := 0

def agreeing : KernelCall → Answer := fun _ => { value := 1 }

section

variable (w : SysWorld)

/-- A load leaves one entry in the log. -/
@[simp] theorem log_load (a : UInt64) (n : Nat) : (load a n).log w = [.load a n] := rfl

@[simp] theorem state_load (a : UInt64) (n : Nat) : (load a n).state w = w := rfl

/-- A load returns the bytes that the memory of the process holds there. -/
@[simp] theorem result_load (a : UInt64) (n : Nat) : (load a n).result w = bytesAt w.memory a n :=
  rfl

/-- A store leaves one entry in the log. -/
@[simp] theorem log_store (a : UInt64) (n : Nat) (bytes : List UInt8) :
    (store a n bytes).log w = [.store a n] := rfl

@[simp] theorem log_call (f : KernelFunction) (args : List UInt64) (data : List (List UInt8)) :
    (call f args data).log w = [.call ⟨f, args, data⟩] := rfl

/-- A service answers what the oracle says for this call. -/
@[simp] theorem result_call (f : KernelFunction) (args : List UInt64) (data : List (List UInt8)) :
    (call f args data).result w = (w.oracle w.calls ⟨f, args, data⟩).1 := rfl

end

/-- A branch is safe in a state when the side that is taken there is. -/
theorem safeAt_ite {c : Prop} [Decidable c] {p q : Sys α} (hp : c → SafeAt v p)
    (hq : ¬ c → SafeAt v q) : SafeAt v (if c then p else q) := by
  split
  · next hc => exact hp hc
  · next hc => exact hq hc

/-- What follows a load need only be safe for the bytes that the state holds. -/
theorem safeAt_load_bind {k : List UInt8 → Sys α} (h : InUser a n)
    (hk : SafeAt v (k (bytesAt v.memory a n))) : SafeAt v (load a n >>= k) := by
  rintro w rfl e he
  rw [Traced.log_bind, log_load, List.singleton_append, List.mem_cons, result_load,
    state_load] at he
  rcases he with rfl | he
  · exact h
  · exact hk w rfl e he

/-- The same for the copy of a record, whose range has been checked. -/
theorem safeAt_load_some_bind {k : Option (List UInt8) → Sys α} (h : InUser a n)
    (hk : Safe (k (some (bytesAt v.memory a n)))) :
    SafeAt v ((load a n >>= fun bytes => pure (some bytes)) >>= k) :=
  safeAt_load_bind (k := fun bytes => k (some bytes)) h hk.at

/-- What follows a look at the state need only be safe for what is there. -/
theorem safeAt_reads_bind {β : Type} {g : SysWorld → β} {b : β} (hg : ∀ w, viewOf w = v → g w = b)
    {k : β → Sys α} (hk : SafeAt v (k b)) : SafeAt v (Traced.reads g >>= k) := by
  intro w hw e he
  refine hk w hw e ?_
  rw [← hg w hw]
  exact he

theorem safeAt_swBp_bind {k : List (Option SwBreakpoint) → Sys α} (hk : SafeAt v (k v.swBp)) :
    SafeAt v (Traced.reads SysWorld.swBp >>= k) :=
  safeAt_reads_bind (fun _ hw => congrArg SysView.swBp hw) hk

theorem safeAt_memtest_bind {k : Memtest.Session → Sys α} (hk : SafeAt v (k v.memtest)) :
    SafeAt v (Traced.reads SysWorld.memtest >>= k) :=
  safeAt_reads_bind (fun _ hw => congrArg SysView.memtest hw) hk

theorem safeAt_frameBits_bind {k : Frame.Bits → Sys α} (hk : SafeAt v (k v.frameBits)) :
    SafeAt v (Traced.reads SysWorld.frameBits >>= k) :=
  safeAt_reads_bind (fun _ hw => congrArg SysView.frameBits hw) hk

theorem safeAt_level_bind {k : UInt32 → Sys α} (hk : SafeAt v (k v.privilegeLevel)) :
    SafeAt v (Traced.reads SysWorld.privilegeLevel >>= k) :=
  safeAt_reads_bind (fun _ hw => congrArg SysView.privilegeLevel hw) hk

/-- The status operations write to the pointer as it is: they are safe if it is null or the user's.
-/
theorem safeAt_ctlStatus (f : KernelFunction) (out : UInt64) (size : Nat) :
    SafeAt v (ctlStatus f out size) ↔ (out ≠ 0 → InUser out size) := by
  constructor
  · intro h hout
    have := h (steadyWorld v agreeing) rfl (.store out size)
    apply this
    simp [ctlStatus, hout]
  · intro h
    apply Safe.at
    refine safe_call_bind fun info => ?_
    exact safe_ite (fun hout => safe_bind (safe_store (h hout) _) fun _ => safe_pure _) fun _ =>
      safe_pure _

/-- An operation 0 that writes a status, and others that are safe anyway. -/
theorem safeAt_status_or {cmd out : UInt64} {f : KernelFunction} {size : Nat} {rest : Sys UInt64}
    (hrest : Safe rest) :
    SafeAt v (if cmd = 0 then ctlStatus f out size else rest) ↔
      (cmd = 0 → out ≠ 0 → InUser out size) := by
  by_cases hcmd : cmd = 0
  · rw [if_pos hcmd, safeAt_ctlStatus]
    exact ⟨fun h _ => h, fun h => h hcmd⟩
  · rw [if_neg hcmd]
    exact iff_of_true hrest.at fun h => absurd h hcmd

/-- `SYS_FSCACHE_CTL` writes 112 bytes of counters to an unchecked pointer. -/
theorem safeAt_fsCacheCtl (cmd arg1 : UInt64) :
    SafeAt v (fsCacheCtl cmd arg1) ↔ (cmd = 0 → arg1 ≠ 0 → InUser arg1 112) := by
  refine safeAt_status_or ?_
  refine safe_branch (safe_callResult _ _ _) ?_
  refine safe_branch (safe_callResult _ _ _) ?_
  refine safe_branch (safe_callResult _ _ _) ?_
  exact safe_branch (safe_callResult _ _ _) (safe_pure _)

/-- `SYS_ZCOMP_CTL` writes 120 bytes of counters to an unchecked pointer. -/
theorem safeAt_zcompCtl (cmd arg1 : UInt64) :
    SafeAt v (zcompCtl cmd arg1) ↔ (cmd = 0 → arg1 ≠ 0 → InUser arg1 120) := by
  refine safeAt_status_or ?_
  refine safe_branch (safe_callResult _ _ _) ?_
  refine safe_branch (safe_callDone _ _ _) ?_
  exact safe_branch (safe_callDone _ _ _) (safe_pure _)

/-- `SYS_IOSCHED_CTL` writes 112 bytes of counters to an unchecked pointer. -/
theorem safeAt_ioschedCtl (cmd arg1 : UInt64) :
    SafeAt v (ioschedCtl cmd arg1) ↔ (cmd = 0 → arg1 ≠ 0 → InUser arg1 112) := by
  refine safeAt_status_or ?_
  refine safe_branch (safe_callDone _ _ _) ?_
  refine safe_branch (safe_callResult _ _ _) ?_
  exact safe_branch (safe_callResult _ _ _) (safe_pure _)

/-- `SYS_GPU_ACCEL_CTL` writes 104 bytes of counters to an unchecked pointer. -/
theorem safeAt_gpuAccelCtl (cmd arg1 arg2 : UInt64) :
    SafeAt v (gpuAccelCtl cmd arg1 arg2) ↔ (cmd = 0 → arg1 ≠ 0 → InUser arg1 104) := by
  refine safeAt_status_or ?_
  refine safe_branch (safe_callDone _ _ _) ?_
  refine safe_branch (safe_callDone _ _ _) ?_
  refine safe_branch (safe_callDone _ _ _) ?_
  exact safe_branch (safe_callDone _ _ _) (safe_pure _)

/-- `sys_waitpid` writes the exit code to an unchecked pointer. -/
theorem safeAt_sysWaitpid (pid exitCode : UInt64) :
    SafeAt v (Syscalls.sysWaitpid pid exitCode) ↔ (exitCode ≠ 0 → InUser exitCode 4) := by
  constructor
  · intro h hne
    -- a child has ended
    have := h (steadyWorld v agreeing) rfl (.store exitCode 4)
    apply this
    simp [Syscalls.sysWaitpid, steadyWorld, agreeing, hne]
  · intro h
    apply Safe.at
    refine safe_call_bind fun reaped => ?_
    refine safe_ite (fun hc => ?_) fun _ => safe_pure _
    exact safe_bind (safe_store (h hc.2) _) fun _ => safe_pure _

/-- Only operation 6 of the USB call writes to an unchecked pointer. -/
theorem safeAt_usbMountCtl (sub arg1 arg2 : UInt64) :
    SafeAt v (usbMountCtl sub arg1 arg2) ↔ (sub = 6 → arg2 ≠ 0 → InUser arg2 16) := by
  constructor
  · rintro h rfl hne
    have := h (steadyWorld v agreeing) rfl (.load arg2 16)
    apply this
    simp [usbMountCtl, hne]
  · intro h
    apply Safe.at
    unfold usbMountCtl
    refine safe_branch (safe_callResult _ _ _) ?_
    refine safe_branch (safe_callResult _ _ _) ?_
    refine safe_branch (safe_callStatus _ _ _) ?_
    refine safe_branch (safe_callResult _ _ _) ?_
    refine safe_branch (safe_callResult _ _ _) ?_
    refine safe_branch (safe_callResult _ _ _) ?_
    refine safe_ite (fun hsub => ?_) fun _ => safe_pure _
    refine safe_ite (fun _ => safe_pure _) fun hne => ?_
    exact safe_bind (safe_load (h hsub hne)) fun _ => safe_callResult _ _ _

def PreviewChecked (m : Memory) (ptr : UInt64) : Prop :=
  appMemoryUserRange ptr 64 = true → field32 (bytesAt m ptr 64) 0 = 7 → field64 (bytesAt m ptr 64) 48 ≠ 0 →
    InUser (field64 (bytesAt m ptr 64) 48) (min (field32 (bytesAt m ptr 64) 56).toNat printerPreviewBytes)

/-- A copy from a range that was checked is a load. -/
theorem copyFromUser_of_range {src size : UInt64} (h : appMemoryUserRange src size = true)
    (hsize : size ≠ 0) :
    appMemoryCopyFromUser src size = load src size.toNat >>= fun bytes => pure (some bytes) := by
  unfold appMemoryCopyFromUser
  simp only [hsize, h, if_false, Bool.not_true, Bool.false_eq_true]

/-- A range that is accepted and not empty does not start at null. -/
theorem ne_zero_of_range {ptr size : UInt64} (h : appMemoryUserRange ptr size = true)
    (hsize : size ≠ 0) : ptr ≠ 0 := by
  rintro rfl
  unfold appMemoryUserRange at h
  rw [if_neg hsize, if_pos rfl] at h
  exact nomatch h

theorem safe_printerPreviewSubmit {data len : UInt64}
    (h : data ≠ 0 → InUser data (min len.toNat printerPreviewBytes)) :
    Safe (printerPreviewSubmit data len) := by
  refine safe_ite (fun _ => safe_pure _) fun hne => ?_
  rw [not_or] at hne
  refine safe_call_bind fun used => ?_
  refine safe_bind (safe_load ((h hne.1).mono ?_)) fun _ => safe_call_pure
  omega

/-- The printer call checks its record, but not the preview data that the record points to. -/
theorem safeAt_sysPrinterCtl (ptr : UInt64) :
    SafeAt v (sysPrinterCtl ptr) ↔ PreviewChecked v.memory ptr := by
  constructor
  · intro h hrange hcmd hdata
    by_cases hlen : field32 (bytesAt v.memory ptr 64) 56 = 0
    · rw [hlen]
      exact inUser_zero _
    -- nothing is in the preview yet
    have hload := h (steadyWorld v fun _ => {}) rfl
      (.load (field64 (bytesAt v.memory ptr 64) 48) (min (field32 (bytesAt v.memory ptr 64) 56).toNat printerPreviewBytes))
    apply hload
    have hptr := ne_zero_of_range hrange (by decide)
    have h64 : (64 : UInt64).toNat = 64 := rfl
    have hmem : (steadyWorld v fun _ => {}).memory = v.memory := rfl
    have horacle (n : Nat) (c : KernelCall) : (steadyWorld v fun _ => {}).oracle n c = ({}, id) :=
      rfl
    simp [sysPrinterCtl, passRequest, hptr, hrange, copyFromUser_of_range hrange (by decide), h64,
      hmem, printerCtl, hcmd,
      printerPreviewSubmit, hdata, hlen, horacle]
  · intro h
    refine safeAt_ite (fun _ => (safe_pure _).at) fun hne => ?_
    rw [not_or] at hne
    have hrange : appMemoryUserRange ptr 64 = true := by simpa using hne.2
    rw [copyFromUser_of_range hrange (by decide)]
    refine safeAt_load_some_bind (inUser_of_range hrange) ?_
    refine safe_bind (safe_bind ?_ fun _ => safe_pure _) fun _ => safe_replyOrAbort _ _ _ _
    refine safe_ite (fun hcmd => safe_printerPreviewSubmit (h hrange hcmd)) fun _ => ?_
    exact safe_call_pure

theorem inUser_one : InUser a 1 ↔ UserRegion a := by
  constructor
  · intro h
    have := h 0 Nat.zero_lt_one
    rwa [show UInt64.ofNat 0 = 0 from rfl, UInt64.add_zero] at this
  · intro h i hi
    rwa [Nat.lt_one_iff.mp hi, show UInt64.ofNat 0 = 0 from rfl, UInt64.add_zero]

/-- A breakpoint is written to the address given when it is new and a slot is free. -/
theorem safeAt_gdbSwBpInsert (addr : UInt64) : SafeAt v (gdbSwBpInsert addr) ↔
      (v.swBp.any (SwBreakpoint.isFor addr) = false → v.swBp.any Option.isNone = true →
        UserRegion addr) := by
  constructor
  · intro h hnew hfree
    rw [← inUser_one]
    have := h (steadyWorld v agreeing) rfl (.store addr 1)
    apply this
    have hfor : v.swBp.findIdx? (SwBreakpoint.isFor addr) = none := by
      rw [List.findIdx?_eq_none_iff]
      simpa using hnew
    obtain ⟨i, hi⟩ : ∃ i, v.swBp.findIdx? Option.isNone = some i := by
      rw [← Option.isSome_iff_exists, List.findIdx?_isSome, hfree]
    have hslots : (steadyWorld v agreeing).swBp = v.swBp := rfl
    simp [gdbSwBpInsert, hslots, hfor, gdbFreeSlot, hi]
  · intro h
    refine safeAt_swBp_bind ?_
    split
    · exact (safe_pure _).at
    next hfor =>
      split
      · exact (safe_pure _).at
      next i hi =>
        have hnew : v.swBp.any (SwBreakpoint.isFor addr) = false := by
          rw [← List.findIdx?_isSome, hfor, Option.isSome_none]
        have hfree : v.swBp.any Option.isNone = true := by
          rw [← List.findIdx?_isSome]
          exact Option.isSome_of_eq_some hi
        have huser := inUser_one.mpr (h hnew hfree)
        apply Safe.at
        refine safe_bind (safe_load huser) fun _ => safe_bind (safe_store huser _) fun _ => ?_
        exact safe_bind (safe_modifies _) fun _ => safe_pure _

/-- A breakpoint that is found is taken out of memory at its address. -/
theorem safeAt_gdbSwBpRemove (addr : UInt64) : SafeAt v (gdbSwBpRemove addr) ↔
      ((v.swBp.take gdbMaxHwBp).any (SwBreakpoint.isFor addr) = true → UserRegion addr) := by
  constructor
  · intro h hfound
    rw [← inUser_one]
    have := h (steadyWorld v agreeing) rfl (.store addr 1)
    apply this
    obtain ⟨i, hi⟩ : ∃ i, (v.swBp.take gdbMaxHwBp).findIdx? (SwBreakpoint.isFor addr) = some i := by
      rw [← Option.isSome_iff_exists, List.findIdx?_isSome, hfound]
    have hslots : (steadyWorld v agreeing).swBp = v.swBp := rfl
    simp [gdbSwBpRemove, hslots, hi, -List.findIdx?_take]
  · intro h
    refine safeAt_swBp_bind ?_
    split
    · exact (safe_pure _).at
    next i hi =>
      have hfound : (v.swBp.take gdbMaxHwBp).any (SwBreakpoint.isFor addr) = true := by
        rw [← List.findIdx?_isSome, hi, Option.isSome_some]
      apply Safe.at
      refine safe_bind (safe_store (inUser_one.mpr (h hfound)) _) fun _ => ?_
      exact safe_bind (safe_modifies _) fun _ => safe_pure _

/-- Taking all breakpoints out touches their addresses only. -/
theorem safe_gdbClearAll {slots : List (Option SwBreakpoint)}
    (h : ∀ bp, some bp ∈ slots → UserRegion bp.addr) :
    Safe (gdbClearAll slots) := by
  induction slots with
  | nil => exact safe_pure _
  | cons slot slots ih =>
    have ih := ih fun bp hbp => h bp (List.mem_cons_of_mem _ hbp)
    cases slot with
    | none => exact ih
    | some bp => exact safe_bind (safe_store (inUser_one.mpr (h bp List.mem_cons_self)) _) fun _ => ih

/-- Every breakpoint that is set is taken out of memory. -/
theorem store_mem_gdbClearAll {slots : List (Option SwBreakpoint)} {bp : SwBreakpoint}
    (h : some bp ∈ slots) (w : SysWorld) :
    .store bp.addr 1 ∈ (gdbClearAll slots).log w := by
  induction slots generalizing w with
  | nil => exact absurd h List.not_mem_nil
  | cons slot slots ih =>
    rcases List.mem_cons.mp h with rfl | hrest
    · simp [gdbClearAll]
    · cases slot with
      | none => exact ih hrest w
      | some bp' => exact List.mem_append_right _ (ih hrest _)

/-- The copy between two buffers touches the bytes of both. -/
theorem safe_gdbCopy {is : List Nat}
    (h : ∀ i ∈ is, UserRegion (src + UInt64.ofNat i) ∧ UserRegion (dst + UInt64.ofNat i)) :
    Safe (gdbCopy dst src is) := by
  induction is with
  | nil => exact safe_pure _
  | cons i is ih =>
    obtain ⟨hsrc, hdst⟩ := h i List.mem_cons_self
    refine safe_bind (safe_load (inUser_one.mpr hsrc)) fun byte => ?_
    refine safe_bind (safe_store (inUser_one.mpr hdst) _) fun _ => ?_
    exact ih fun j hj => h j (List.mem_cons_of_mem _ hj)

/-- Every index of the copy is read at the source and written at the destination. -/
theorem mem_gdbCopy {is : List Nat} {i : Nat} (h : i ∈ is) (w : SysWorld) :
    .load (src + UInt64.ofNat i) 1 ∈ (gdbCopy dst src is).log w ∧
      .store (dst + UInt64.ofNat i) 1 ∈ (gdbCopy dst src is).log w := by
  induction is generalizing w with
  | nil => exact absurd h List.not_mem_nil
  | cons j is ih =>
    rcases List.mem_cons.mp h with rfl | h
    · simp [gdbCopy]
    · obtain ⟨hload, hstore⟩ := ih h ((store (dst + UInt64.ofNat j) 1 ((load (src + UInt64.ofNat j) 1).result w)).state w)
      exact ⟨List.mem_append_right _ (List.mem_append_right _ hload),
        List.mem_append_right _ (List.mem_append_right _ hstore)⟩

def transferLength (m : Memory) (arg2 : UInt64) : Nat :=
  min (field64 (bytesAt m arg2 16) 8).toUInt32.toNat 4096

def TransferChecked (m : Memory) (arg1 arg2 : UInt64) : Prop :=
  InUser arg2 16 ∧ InUser arg1 (transferLength m arg2) ∧ InUser (field64 (bytesAt m arg2 16) 0) (transferLength m arg2)

/-- The memory operations of the debugger: safe if and only if both ranges of the request are the
user's. -/
theorem safeAt_gdbTransfer (arg1 arg2 : UInt64) {copy : UInt64 → List Nat → Sys Unit}
    (hsafe : ∀ buf n, InUser arg1 n → InUser buf n → Safe (copy buf (List.range n)))
    (hreach : ∀ buf n w, (∀ e ∈ (copy buf (List.range n)).log w, TouchesUser e) → InUser arg1 n ∧
      InUser buf n) :
    SafeAt v (gdbTransfer arg2 copy) ↔ (arg2 ≠ 0 → TransferChecked v.memory arg1 arg2) := by
  constructor
  · intro h hne
    have h := h (steadyWorld v agreeing) rfl
    unfold gdbTransfer at h
    rw [if_neg hne] at h
    refine ⟨h (.load arg2 16) List.mem_cons_self, ?_⟩
    apply hreach _ _ (steadyWorld v agreeing)
    intro e he
    exact h e (List.mem_append_right _ (List.mem_append_left _ he))
  · intro h
    refine safeAt_ite (fun _ => (safe_pure _).at) fun hne => ?_
    obtain ⟨hrequest, harg1, hbuf⟩ := h hne
    refine safeAt_load_bind hrequest ?_
    exact (safe_bind (hsafe _ _ harg1 hbuf) fun _ => safe_pure _).at

theorem inUser_of_gdbCopy {w : SysWorld}
    (h : ∀ e ∈ (gdbCopy dst src (List.range n)).log w, TouchesUser e) :
    InUser src n ∧ InUser dst n := by
  constructor
  · intro i hi
    exact inUser_one.mp (h _ (mem_gdbCopy (List.mem_range.mpr hi) w).1)
  · intro i hi
    exact inUser_one.mp (h _ (mem_gdbCopy (List.mem_range.mpr hi) w).2)

theorem safe_gdbCopy_range (hsrc : InUser src n) (hdst : InUser dst n) :
    Safe (gdbCopy dst src (List.range n)) := by
  apply safe_gdbCopy
  intro i hi
  exact ⟨hsrc i (List.mem_range.mp hi), hdst i (List.mem_range.mp hi)⟩

structure DebugChecked (m : Memory) (slots : List (Option SwBreakpoint)) (op arg1 arg2 : UInt64) : Prop where
  insert : op = 0 → slots.any (SwBreakpoint.isFor arg1) = false → slots.any Option.isNone = true → UserRegion arg1
  remove : op = 1 → (slots.take gdbMaxHwBp).any (SwBreakpoint.isFor arg1) = true → UserRegion arg1
  clearAll : op = 2 → ∀ bp, some bp ∈ slots → UserRegion bp.addr
  regs : op = 7 → arg1 ≠ 0 → InUser arg1 192
  transfer : op = 8 ∨ op = 9 → arg2 ≠ 0 → TransferChecked m arg1 arg2

/-- Clearing is safe if and only if every breakpoint that is set lies in memory of the user. -/
theorem safeAt_debugClear : SafeAt v (do
      let slots ← Traced.reads SysWorld.swBp
      gdbClearAll slots
      Traced.modifies fun w => { w with swBp := w.swBp.map fun _ => none }
      pure (UInt64.ofNat (slots.countP Option.isSome))) ↔ ∀ bp, some bp ∈ v.swBp → UserRegion bp.addr := by
  constructor
  · intro h bp hbp
    apply inUser_one.mp
    apply h (steadyWorld v agreeing) rfl (.store bp.addr 1)
    exact List.mem_append_right _ (List.mem_append_left _ (store_mem_gdbClearAll hbp _))
  · intro h
    refine safeAt_swBp_bind ?_
    exact (safe_bind (safe_gdbClearAll h) fun _ => safe_bind (safe_modifies _) fun _ => safe_pure _).at

/-- The snapshot of the registers is written to an unchecked pointer. -/
theorem safeAt_debugRegs (arg1 : UInt64) : SafeAt v (if arg1 = 0 then pure fail else do
      let regs ← call .gdbRegsSnapshot [] []
      store arg1 192 regs.data
      pure (24 : UInt64)) ↔ (arg1 ≠ 0 → InUser arg1 192) := by
  constructor
  · intro h hne
    apply h (steadyWorld v agreeing) rfl (.store arg1 192)
    simp [hne]
  · intro h
    apply Safe.at
    refine safe_ite (fun _ => safe_pure _) fun hne => ?_
    exact safe_call_bind fun _ => safe_bind (safe_store (h hne) _) fun _ => safe_pure _

/-- The operations of `SYS_DEBUG_CTL` together. -/
theorem safeAt_debugCtl (op arg1 arg2 : UInt64) :
    SafeAt v (debugCtl op arg1 arg2) ↔ DebugChecked v.memory v.swBp op arg1 arg2 := by
  have hread : SafeAt v (gdbTransfer arg2 fun buf => gdbCopy buf arg1) ↔
      (arg2 ≠ 0 → TransferChecked v.memory arg1 arg2) :=
    safeAt_gdbTransfer arg1 arg2 (fun _ _ h h' => safe_gdbCopy_range h h') fun _ _ _ h => inUser_of_gdbCopy h
  have hwrite : SafeAt v (gdbTransfer arg2 fun buf => gdbCopy arg1 buf) ↔
      (arg2 ≠ 0 → TransferChecked v.memory arg1 arg2) :=
    safeAt_gdbTransfer arg1 arg2 (fun _ _ h h' => safe_gdbCopy_range h' h) fun _ _ _ h => (inUser_of_gdbCopy h).symm
  constructor
  · intro h
    refine ⟨?_, ?_, ?_, ?_, ?_⟩
    · rintro rfl
      exact (safeAt_gdbSwBpInsert arg1).mp h
    · rintro rfl
      exact (safeAt_gdbSwBpRemove arg1).mp h
    · rintro rfl
      exact safeAt_debugClear.mp h
    · rintro rfl
      exact (safeAt_debugRegs arg1).mp h
    · rintro (rfl | rfl)
      · exact hread.mp h
      · exact hwrite.mp h
  · intro h
    unfold debugCtl
    refine safeAt_ite (fun hop => (safeAt_gdbSwBpInsert arg1).mpr (h.insert hop)) fun _ => ?_
    refine safeAt_ite (fun hop => (safeAt_gdbSwBpRemove arg1).mpr (h.remove hop)) fun _ => ?_
    refine safeAt_ite (fun hop => safeAt_debugClear.mpr (h.clearAll hop)) fun _ => ?_
    refine safeAt_ite (fun _ => (safe_callResult _ _ _).at) fun _ => ?_
    refine safeAt_ite (fun _ => (safe_callResult _ _ _).at) fun _ => ?_
    refine safeAt_ite (fun _ => (safe_callDone _ _ _).at) fun _ => ?_
    refine safeAt_ite (fun _ => (safe_callDone _ _ _).at) fun _ => ?_
    refine safeAt_ite (fun hop => (safeAt_debugRegs arg1).mpr (h.regs hop)) fun _ => ?_
    refine safeAt_ite (fun hop => hread.mpr (h.transfer (.inl hop))) fun _ => ?_
    refine safeAt_ite (fun hop => hwrite.mpr (h.transfer (.inr hop))) fun _ => ?_
    exact (safe_ite (fun _ => safe_callResult _ _ _) fun _ => safe_pure _).at

/-- Two adjacent ranges of the user make one. -/
theorem InUser.append {a : UInt64} {n k : Nat} (hn : InUser a n)
    (hk : InUser (a + UInt64.ofNat n) k) :
    InUser a (n + k) := by
  intro i hi
  by_cases hin : i < n
  · exact hn i hin
  · have := hk (i - n) (by omega)
    rwa [UInt64.add_assoc, ← UInt64.ofNat_add, Nat.add_sub_cancel' (Nat.le_of_not_lt hin)] at this

/-- The end of a range of the user is the user's. -/
theorem InUser.shift {n k : Nat} (h : InUser a (n + k)) : InUser (a + UInt64.ofNat n) k := by
  intro i hi
  rw [UInt64.add_assoc, ← UInt64.ofNat_add]
  exact h (n + i) (by omega)

/-- No range of the user is larger than the memory of a process. -/
theorem not_inUser_of_large (hn : 0x400000 < n) : ¬ InUser a n := by
  intro h
  have hfirst := h 0 (by omega)
  have hlast := h 0x400000 hn
  rw [show UInt64.ofNat 0 = 0 from rfl, UInt64.add_zero] at hfirst
  unfold UserRegion at hfirst hlast
  have hmin : execUserAddressMin.toNat = 0x04000000 := rfl
  have hmax : execUserAddressMax.toNat = 0x04400000 := rfl
  have hstep : (UInt64.ofNat 0x400000).toNat = 0x400000 := rfl
  simp only [UInt64.le_iff_toNat_le, UInt64.lt_iff_toNat_lt, UInt64.toNat_add, hmin, hmax,
    hstep] at hfirst hlast
  omega

section

variable {transfer : UInt64 → UInt64 → Nat → Sys Unit}

/-- The loop over a volume stays in the buffer when the buffer has room for all sectors. -/
theorem safe_fat32VolumeLoop (htransfer : ∀ lba buf n, InUser buf (512 * n) → Safe (transfer lba buf n))
    (rounds done count : Nat) (lba buf : UInt64) (h : InUser buf (512 * (count - done))) :
    Safe (fat32VolumeLoop transfer rounds done count lba buf) := by
  induction rounds generalizing done lba buf with
  | zero => exact safe_pure _
  | succ rounds ih =>
    refine safe_ite (fun _ => safe_pure _) fun hmore => ?_
    refine safe_bind (htransfer _ _ _ (h.mono ?_)) fun _ => ?_
    · omega
    · apply ih
      apply InUser.shift
      exact h.mono (by omega)

/-- If all accesses of the loop are the user's, the buffer for all sectors is. -/
theorem inUser_of_fat32VolumeLoop {I : SysWorld → Prop}
    (htransfer : ∀ lba buf n w, n ≤ 255 → I w → I ((transfer lba buf n).state w) ∧
      ((∀ e ∈ (transfer lba buf n).log w, TouchesUser e) → InUser buf (512 * n)))
    (rounds done count : Nat) (lba buf : UInt64) (w : SysWorld) (hw : I w)
    (hrounds : count - done ≤ rounds)
    (h : ∀ e ∈ (fat32VolumeLoop transfer rounds done count lba buf).log w, TouchesUser e) :
    InUser buf (512 * (count - done)) := by
  induction rounds generalizing done lba buf w with
  | zero =>
    rw [Nat.le_zero.mp hrounds]
    exact inUser_zero _
  | succ rounds ih =>
    unfold fat32VolumeLoop at h
    split at h
    next hdone =>
      rw [Nat.sub_eq_zero_of_le hdone]
      exact inUser_zero _
    next hmore =>
      have hbatch := htransfer lba buf (min (count - done) 255) w (Nat.min_le_right _ _) hw
      have hfirst := hbatch.2 fun e he => h e (List.mem_append_left _ he)
      have hrest := ih (done + min (count - done) 255) _ _ _ hbatch.1 (by omega)
        fun e he => h e (List.mem_append_right _ he)
      have hwhole := hfirst.append hrest
      rwa [show 512 * min (count - done) 255 + 512 * (count - (done + min (count - done) 255)) =
        512 * (count - done) by omega] at hwhole

end

def generous : KernelCall → Answer := fun _ => { value := 131072 }

def StillGenerous (w : SysWorld) : Prop := w.oracle = fun _ c => (generous c, id)

theorem safe_ataReadSectors (lba buf : UInt64) (n : Nat) (h : InUser buf (512 * n)) :
    Safe (ataReadSectors lba buf n) :=
  safe_call_bind fun _ => safe_store h _

theorem safe_ataWriteSectors (lba buf : UInt64) (n : Nat) (h : InUser buf (512 * n)) :
    Safe (ataWriteSectors lba buf n) :=
  safe_call_bind fun _ => safe_bind (safe_load (h.mono (Nat.min_le_right _ _))) fun _ => safe_pure _

/-- A controller that goes on answering lets a read reach every byte of its buffer. -/
theorem ataReadSectors_reaches (lba buf : UInt64) (n : Nat) (w : SysWorld) (_ : n ≤ 255)
    (hw : StillGenerous w) :
    StillGenerous ((ataReadSectors lba buf n).state w) ∧
      ((∀ e ∈ (ataReadSectors lba buf n).log w, TouchesUser e) → InUser buf (512 * n)) := by
  refine ⟨hw, fun h => ?_⟩
  apply h (.store buf (512 * n))
  simp [ataReadSectors]

/-- A controller that goes on answering lets a write reach every byte of its buffer. -/
theorem ataWriteSectors_reaches (lba buf : UInt64) (n : Nat) (w : SysWorld) (hn : n ≤ 255)
    (hw : StillGenerous w) :
    StillGenerous ((ataWriteSectors lba buf n).state w) ∧
      ((∀ e ∈ (ataWriteSectors lba buf n).log w, TouchesUser e) → InUser buf (512 * n)) := by
  refine ⟨hw, fun h => ?_⟩
  apply h (.load buf (512 * n))
  unfold StillGenerous at hw
  simp [Syscalls.ataWriteSectors, hw, generous]
  omega

/-- The number of bytes that is checked is 512 for each sector, as long as 32 bits hold it. -/
theorem toNat_backupCheckedBytes {sectors : UInt32} (h : sectors.toNat < 2 ^ 23) :
    (backupCheckedBytes sectors).toNat = 512 * sectors.toNat := by
  have h512 : (512 : UInt32).toNat = 512 := rfl
  rw [backupCheckedBytes, UInt32.toNat_toUInt64, UInt32.toNat_mul, h512]
  omega

def SectorsChecked (bb bc : UInt64) : Prop :=
  bc ≠ 0 → appMemoryUserRange bc (backupCheckedBytes bb.toUInt32) = true → bb.toUInt32.toNat < 2 ^ 23

section

variable {transfer : UInt64 → UInt64 → Nat → Sys Unit}

theorem safe_backupVolume (hsafe : ∀ lba buf n, InUser buf (512 * n) → Safe (transfer lba buf n))
    {ba bb bc : UInt64} (h : SectorsChecked bb bc) : Safe (backupVolume transfer ba bb bc) := by
  refine safe_ite (fun _ => safe_abort) fun hrange => ?_
  have hrange : appMemoryUserRange bc (backupCheckedBytes bb.toUInt32) = true := by
    simpa using hrange
  refine safe_call_bind fun fat32 => ?_
  refine safe_ite (fun _ => safe_pure _) fun hargs => ?_
  refine safe_call_bind fun ready => ?_
  refine safe_guard ?_
  refine safe_bind (safe_fat32VolumeLoop hsafe _ _ _ _ _ ?_) fun _ => safe_pure _
  rw [not_or, not_or] at hargs
  have huser := inUser_of_range hrange
  rwa [toNat_backupCheckedBytes (h hargs.2.1 hrange)] at huser

/-- On a device that answers, a safe transfer means that the buffer had room for all sectors. -/
theorem sectorsChecked_of_generous
    (hreach : ∀ lba buf n w, n ≤ 255 → StillGenerous w →
      StillGenerous ((transfer lba buf n).state w) ∧
      ((∀ e ∈ (transfer lba buf n).log w, TouchesUser e) → InUser buf (512 * n))) {ba bb bc :
      UInt64}
    (h : ∀ e ∈ (backupVolume transfer ba bb bc).log (steadyWorld v generous), TouchesUser e) :
    SectorsChecked bb bc := by
  intro hbc hrange
  by_contra hlarge
  have hsectors : bb.toUInt32 ≠ 0 := by
    intro hzero
    rw [hzero] at hlarge
    exact hlarge (by decide)
  have hloop := inUser_of_fat32VolumeLoop hreach bb.toUInt32.toNat 0 bb.toUInt32.toNat ba.toUInt32.toUInt64 bc
    { steadyWorld v generous with calls := 2 } rfl (Nat.sub_le _ _) ?_
  · exact not_inUser_of_large (by omega) hloop
  · intro e he
    apply h e
    have hanswer (n : Nat) (c : KernelCall) : (steadyWorld v generous).oracle n c = (generous c, id) := rfl
    have htrue (c : KernelCall) : (generous c).isTrue = true := rfl
    unfold backupVolume fileBackupVolume
    rw [hrange]
    simp only [Bool.not_true, Bool.false_eq_true, if_false, Traced.log_bind, log_call, result_call,
      hanswer, htrue, hbc,
      hsectors, or_self]
    exact List.mem_append_right _ (List.mem_append_right _ (List.mem_append_left _ he))

end

/-- The two sector operations of the backup call check 32 bits of the size only. -/
theorem safeAt_sysBackupCtl (op ba bb bc bd : UInt64) : SafeAt v (sysBackupCtl op ba bb bc bd) ↔
      (v.privilegeLevel ≤ execPrivR2 → op.toUInt32 = 2 ∨ op.toUInt32 = 7 →
        SectorsChecked bb bc) := by
  constructor
  · intro h hallowed hop
    have h := h (steadyWorld v generous) rfl
    have hlevel : ¬ (steadyWorld v generous).privilegeLevel > execPrivR2 :=
      UInt32.not_lt.mpr hallowed
    rcases hop with hop | hop
    · apply sectorsChecked_of_generous ataReadSectors_reaches
      simpa [sysBackupCtl, hlevel, hop] using h
    · apply sectorsChecked_of_generous ataWriteSectors_reaches
      simpa [sysBackupCtl, hlevel, hop] using h
  · intro h
    refine safeAt_level_bind ?_
    refine safeAt_ite (fun _ => (safe_pure _).at) fun hdenied => ?_
    have h := h (UInt32.not_lt.mp hdenied)
    apply Safe.at
    refine safe_branch ?_ ?_
    · exact safe_bind_option (safe_copyString _ _) (safe_pure _) fun path => safe_callResult _ _ _
    refine safe_ite (fun hop => safe_backupVolume safe_ataReadSectors (h (.inl hop))) fun _ => ?_
    refine safe_branch ?_ ?_
    · refine safe_range safe_abort fun huser => ?_
      exact safe_bind (safe_load (huser.mono (by simp))) fun _ => safe_callResult _ _ _
    refine safe_branch (safe_callResult _ _ _) ?_
    refine safe_branch ?_ ?_
    · exact safe_bind_option (safe_copyString _ _) (safe_pure _) fun path => safe_callResult _ _ _
    refine safe_branch ?_ ?_
    · refine safe_bind_option (safe_copyString _ _) safe_abort fun path => ?_
      refine safe_range safe_abort fun huser => ?_
      refine safe_call_bind fun a => ?_
      refine safe_bind (safe_store (huser.mono ?_) _) fun _ => safe_pure _
      rw [UInt32.toNat_toUInt64]
      exact Nat.min_le_right _ _
    refine safe_ite (fun hop => safe_backupVolume safe_ataWriteSectors (h (.inr hop))) fun _ => ?_
    exact safe_guard (safe_pure _)

theorem range_one_iff : appMemoryUserRange a 1 = true ↔ UserRegion a := by
  constructor
  · intro h
    exact inUser_one.mp (inUser_of_range h)
  · intro h
    unfold UserRegion at h
    have hmin : execUserAddressMin.toNat = 0x04000000 := rfl
    have hmax : execUserAddressMax.toNat = 0x04400000 := rfl
    have hone : (1 : UInt64).toNat = 1 := rfl
    have hne : a ≠ 0 := by
      rintro rfl
      exact absurd h.1 (by decide)
    unfold appMemoryUserRange execUserRangeValid
    rw [if_neg (by decide), if_neg hne, if_neg (by decide), if_neg hne]
    simp only [UInt64.le_iff_toNat_le, UInt64.lt_iff_toNat_lt, UInt64.toNat_add, hmin, hmax, hone,
      ge_iff_le, gt_iff_lt] at h ⊢
    rw [if_neg (by omega), if_neg (by omega)]

def UserStringAt (m : Memory) (max : Nat) (src : UInt64) : Prop :=
  ∃ n < max, m (src + UInt64.ofNat n) = 0 ∧ ∀ i ≤ n, UserRegion (src + UInt64.ofNat i)

/-- Copying a string changes nothing. -/
theorem state_copyStringFrom (src : UInt64) (n index : Nat) (copied : List UInt8) (w : SysWorld) :
    (copyStringFrom src n index copied).state w = w := by
  induction n generalizing index copied with
  | zero => rfl
  | succ n ih =>
    unfold copyStringFrom
    split
    · rfl
    · rw [Traced.state_bind, state_load, result_load]
      split
      · rfl
      · exact ih _ _

/-- The guard of the loop refuses exactly the addresses outside the user's memory. -/
theorem copyString_guard_iff (src : UInt64) {index : Nat} (h : index < 0x10000) :
    (src.toNat > 0xFFFFFFFFFFFFFFFF - index ∨ !appMemoryUserRange (src + UInt64.ofNat index) 1) ↔
      ¬ UserRegion (src + UInt64.ofNat index) := by
  rw [Bool.not_eq_true', ← Bool.not_eq_true, range_one_iff, or_iff_right_iff_imp]
  intro hover huser
  unfold UserRegion at huser
  have hmin : execUserAddressMin.toNat = 0x04000000 := rfl
  have hindex : (UInt64.ofNat index).toNat = index := by
    rw [UInt64.toNat_ofNat']
    omega
  have hsrc := src.toNat_lt
  have hlow := huser.1
  rw [UInt64.le_iff_toNat_le, UInt64.toNat_add, hmin, hindex] at hlow
  omega

/-- A string is found if a zero byte comes before the limit and all bytes up to it are the user's.
-/
theorem isSome_copyStringFrom (src : UInt64) (n index : Nat) (copied : List UInt8) (w : SysWorld)
    (h : index + n ≤ 0x10000) : ((copyStringFrom src n index copied).result w).isSome = true ↔
      ∃ k < n, w.memory (src + UInt64.ofNat (index + k)) = 0 ∧
      ∀ i ≤ k, UserRegion (src + UInt64.ofNat (index + i)) := by
  induction n generalizing index copied with
  | zero =>
    refine iff_of_false (by simp [copyStringFrom]) ?_
    rintro ⟨k, hk, -⟩
    exact absurd hk (Nat.not_lt_zero _)
  | succ n ih =>
    unfold copyStringFrom
    simp only [copyString_guard_iff src (show index < 0x10000 by omega)]
    by_cases huser : UserRegion (src + UInt64.ofNat index)
    · rw [if_neg (not_not_intro huser), Traced.result_bind, result_load, state_load]
      have hbyte : bytesAt w.memory (src + UInt64.ofNat index) 1 =
          [w.memory (src + UInt64.ofNat index)] := by
        simp [bytesAt]
      rw [hbyte]
      by_cases hzero : w.memory (src + UInt64.ofNat index) = 0
      · rw [hzero, if_pos rfl]
        refine iff_of_true rfl ⟨0, by omega, hzero, ?_⟩
        intro i hi
        rwa [Nat.le_zero.mp hi]
      · rw [if_neg (by simpa using hzero), ih _ _ (by omega)]
        constructor
        · rintro ⟨k, hk, hend, hall⟩
          refine ⟨k + 1, by omega, by rwa [show index + (k + 1) = index + 1 + k by omega], ?_⟩
          intro i hi
          cases i with
          | zero => exact huser
          | succ i =>
            rw [show index + (i + 1) = index + 1 + i by omega]
            exact hall i (by omega)
        · rintro ⟨k, hk, hend, hall⟩
          cases k with
          | zero => exact absurd hend hzero
          | succ k =>
            refine ⟨k, by omega, by rwa [show index + 1 + k = index + (k + 1) by omega], ?_⟩
            intro i hi
            rw [show index + 1 + i = index + (i + 1) by omega]
            exact hall (i + 1) (by omega)
    · rw [if_pos huser]
      refine iff_of_false (by simp) ?_
      rintro ⟨k, -, -, hall⟩
      exact huser (hall 0 (Nat.zero_le _))

theorem state_copyString (max : Nat) (src : UInt64) (w : SysWorld) :
    (appMemoryCopyStringFromUser max src).state w = w := by
  unfold appMemoryCopyStringFromUser
  split
  · rfl
  · exact state_copyStringFrom _ _ _ _ _

/-- The same for a whole string. -/
theorem isSome_copyString {src : UInt64} (hsrc : src ≠ 0) {max : Nat} (hmax : max ≤ 0x10000)
    (w : SysWorld) :
    ((appMemoryCopyStringFromUser max src).result w).isSome = true ↔
      UserStringAt w.memory max src := by
  unfold appMemoryCopyStringFromUser
  rw [if_neg hsrc, Traced.result_bind, Traced.result_pure, Option.isSome_map,
    isSome_copyStringFrom _ _ _ _ _ (by omega)]
  simp only [Nat.zero_add, UserStringAt]

/-- What follows the copy of a string need only be safe if the string is there. -/
theorem safeAt_copyString_bind {src : UInt64} (hsrc : src ≠ 0) {max : Nat} (hmax : max ≤ 0x10000)
    {k : Option CString → Sys α} (hnone : Safe (k none))
    (hsome : ∀ text, UserStringAt v.memory max src → SafeAt v (k (some text))) :
    SafeAt v (appMemoryCopyStringFromUser max src >>= k) := by
  rintro w rfl e he
  rw [Traced.log_bind, state_copyString] at he
  rcases List.mem_append.mp he with he | he
  · exact (safe_copyString _ _).touches he
  · rcases hr : (appMemoryCopyStringFromUser max src).result w with _ | text
    · rw [hr] at he
      exact hnone.touches he
    · rw [hr] at he
      refine hsome text ?_ w rfl e he
      change UserStringAt w.memory max src
      rw [← isSome_copyString hsrc hmax, hr, Option.isSome_some]

/-- The query is scanned unchecked: the bytes up to the end of the string have to be the user's. -/
theorem queryStringFrom_touchesUser_iff (src : UInt64) (n index : Nat) (copied : List UInt8)
    (w : SysWorld) :
    (∀ e ∈ (queryStringFrom src n index copied).log w, TouchesUser e) ↔
      ∀ i ≤ n, (∀ j < i, w.memory (src + UInt64.ofNat (index + j)) ≠ 0) →
      UserRegion (src + UInt64.ofNat (index + i)) := by
  induction n generalizing index copied with
  | zero =>
    have hlog : (queryStringFrom src 0 index copied).log w = [.load (src + UInt64.ofNat index) 1] :=
      rfl
    rw [hlog]
    simp only [List.mem_singleton, forall_eq, TouchesUser, inUser_one, Nat.le_zero,
      Nat.not_lt_zero, false_implies,
      implies_true, forall_const, Nat.add_zero]
  | succ n ih =>
    have hbyte : bytesAt w.memory (src + UInt64.ofNat index) 1 =
        [w.memory (src + UInt64.ofNat index)] := by
      simp [bytesAt]
    unfold queryStringFrom
    rw [Traced.log_bind, log_load, result_load, state_load, hbyte, List.singleton_append,
      List.forall_mem_cons]
    have hfirst : TouchesUser (.load (src + UInt64.ofNat index) 1) ↔
        UserRegion (src + UInt64.ofNat index) := inUser_one
    rw [hfirst]
    by_cases hzero : w.memory (src + UInt64.ofNat index) = 0
    · rw [hzero, if_pos rfl, Traced.log_pure]
      constructor
      · rintro ⟨huser, -⟩ i - hnonzero
        cases i with
        | zero => exact huser
        | succ i => exact absurd hzero (hnonzero 0 (Nat.succ_pos _))
      · intro h
        refine ⟨h 0 (Nat.zero_le _) fun j hj => absurd hj (Nat.not_lt_zero _), ?_⟩
        exact fun e he => absurd he List.not_mem_nil
    · rw [if_neg (by simpa using hzero), ih]
      constructor
      · rintro ⟨huser, hrest⟩ i hi hnonzero
        cases i with
        | zero => exact huser
        | succ i =>
          rw [show index + (i + 1) = index + 1 + i by omega]
          refine hrest i (by omega) fun j hj => ?_
          rw [show index + 1 + j = index + (j + 1) by omega]
          exact hnonzero (j + 1) (by omega)
      · intro h
        refine ⟨h 0 (Nat.zero_le _) fun j hj => absurd hj (Nat.not_lt_zero _), ?_⟩
        intro i hi hnonzero
        rw [show index + 1 + i = index + (i + 1) by omega]
        refine h (i + 1) (by omega) fun j hj => ?_
        cases j with
        | zero => exact hzero
        | succ j =>
          rw [show index + (j + 1) = index + 1 + j by omega]
          exact hnonzero j (by omega)

def QueryChecked (m : Memory) (query : UInt64) : Prop :=
  ∀ i ≤ 255, (∀ j < i, m (query + UInt64.ofNat j) ≠ 0) → UserRegion (query + UInt64.ofNat i)

/-- A query is read unless its pointer is null. -/
theorem queryString_touchesUser_iff (query : UInt64) (w : SysWorld) :
    (∀ e ∈ (queryString query).log w, TouchesUser e) ↔
      (query ≠ 0 → QueryChecked w.memory query) := by
  unfold queryString
  split
  next hne =>
    rw [queryStringFrom_touchesUser_iff]
    simp only [Nat.zero_add]
    exact ⟨fun h _ => h, fun h => h hne⟩
  next hnull => exact iff_of_true (fun e he => absurd he List.not_mem_nil) fun hne => absurd hne hnull

/-- Once the program is loaded, the query and the exit code are used as they are. -/
theorem execCaptureRun_touchesUser_iff (path : List UInt8) (out cap exitCode query : UInt64)
    (w : SysWorld) :
    (∀ e ∈ (execCaptureRun path out cap exitCode query).log w, TouchesUser e) ↔
      (query ≠ 0 → QueryChecked w.memory query) := by
  rw [← queryString_touchesUser_iff]
  constructor
  · exact fun h e he => h e (List.mem_append_left _ he)
  · intro h e he
    rcases List.mem_append.mp he with he | he
    · exact h e he
    · refine Safe.touches ?_ he
      refine safe_call_bind fun buf => ?_
      refine safe_guard ?_
      refine safe_call_bind fun a => ?_
      refine safe_branch safe_call_pure ?_
      refine safe_bind (safe_copyToUser _ _ _) fun _ => ?_
      refine safe_ite (fun _ => ?_) fun _ => safe_call_pure
      exact safe_bind (safe_copyToUser _ _ _) fun _ => safe_call_pure

def CaptureChecked (m : Memory) (pathPtr out size exitCode query : UInt64) : Prop :=
  pathPtr ≠ 0 → out ≠ 0 → size.toUInt32 ≠ 0 → size.toUInt32 ≤ 65536 → UserStringAt m pathMaxLen pathPtr →
    appMemoryUserRange out size.toUInt32.toUInt64 = true → (exitCode ≠ 0 → appMemoryUserRange exitCode 4 = true) →
      query ≠ 0 → QueryChecked m query

/-- The capture call checks the buffer and the path, not the query and the exit code. -/
theorem safeAt_sysExecCapture (pathPtr out size exitCode query : UInt64) :
    SafeAt v (sysExecCapture pathPtr out size exitCode query) ↔
      CaptureChecked v.memory pathPtr out size exitCode query := by
  have hcap : size.toUInt32.toUInt64 = 0 ↔ size.toUInt32 = 0 := by
    rw [← UInt64.toNat_inj, ← UInt32.toNat_inj, UInt32.toNat_toUInt64]
    rfl
  have hcap' : size.toUInt32.toUInt64 > 65536 ↔ ¬ size.toUInt32 ≤ 65536 := by
    rw [gt_iff_lt, UInt64.lt_iff_toNat_lt, UInt32.le_iff_toNat_le, UInt32.toNat_toUInt64, not_le]
    rfl
  constructor
  · intro h hpath hout hsize hsize' hstring hrange hexit
    have h := h (steadyWorld v agreeing) rfl
    obtain ⟨path, hsome⟩ := Option.isSome_iff_exists.mp
      ((isSome_copyString hpath (by decide) (steadyWorld v agreeing)).mpr hstring)
    refine (execCaptureRun_touchesUser_iff path.val out size.toUInt32.toUInt64 exitCode query
      (steadyWorld v agreeing)).mp ?_
    intro e he
    apply h e
    unfold sysExecCapture
    rw [if_neg (by simp only [hpath, hout, hcap, hcap', hsize, hsize', not_true_eq_false, or_self, not_false_eq_true])]
    rw [Traced.log_bind, hsome, state_copyString]
    apply List.mem_append_right
    dsimp only
    rw [if_neg (by simp only [hrange, Bool.not_true, Bool.false_eq_true, not_false_eq_true]),
      if_neg (by simpa using hexit)]
    exact he
  · intro h
    refine safeAt_ite (fun _ => (safe_pure _).at) fun hargs => ?_
    simp only [not_or, hcap, hcap', not_not] at hargs
    obtain ⟨hpath, hout, hsize, hsize'⟩ := hargs
    refine safeAt_copyString_bind hpath (by decide) safe_abort fun path hstring => ?_
    refine safeAt_ite (fun _ => safe_abort.at) fun hrange => ?_
    refine safeAt_ite (fun _ => safe_abort.at) fun hexit => ?_
    rintro w rfl e he
    refine (execCaptureRun_touchesUser_iff _ _ _ _ _ w).mpr ?_ e he
    exact h hpath hout hsize hsize' hstring (by simpa using hrange) (by simpa using hexit)

/-- A query of the memory test's status writes to user memory only.  It writes to the pages that are
due: the first ones from the cursor on that are not in use, as many as it does at a time.  Where the
window does not start at an address of the process, they are not reached through its pointer. -/
def MemtestChecked (v : SysView) (ptr : UInt64) : Prop :=
  appMemoryUserRange ptr 896 = true → field32 (bytesAt v.memory ptr 896) 0 = 3 → v.memtest.running = true →
    v.memtest.cancelled = false → v.memtest.supplied = true →
      ∀ page ∈ (Memtest.freePages v.frameBits v.memtest.rangeEnd v.memtest.roundsLeft v.memtest.cursor).take
        v.memtest.budget, InUser page (Memtest.testedBytes v.memtest.rangeEnd page)

/-- A test of pages that are the user's, or of frames of the pool. -/
theorem safe_testPages {s : Memtest.Session} {pages : List UInt64}
    (h : s.supplied = true → ∀ page ∈ pages, InUser page (Memtest.testedBytes s.rangeEnd page)) :
    Safe (testPages s pages) := by
  induction pages with
  | nil => exact safe_pure _
  | cons page pages ih =>
    refine safe_bind ?_ fun _ => ih fun hs page hpage => h hs page (List.mem_cons_of_mem _ hpage)
    refine safe_ite (fun hs => safe_store (h hs page List.mem_cons_self) _) fun _ => safe_modifies _

/-- Every page that is tested is written. -/
theorem store_mem_testPages {s : Memtest.Session} (hs : s.supplied = true) {pages : List UInt64}
    {page : UInt64} (h : page ∈ pages) (w : SysWorld) :
    .store page (Memtest.testedBytes s.rangeEnd page) ∈ (testPages s pages).log w := by
  induction pages generalizing w with
  | nil => exact absurd h List.not_mem_nil
  | cons first pages ih =>
    rcases List.mem_cons.mp h with rfl | h
    · refine List.mem_append_left _ ?_
      unfold testPage
      rw [if_pos hs]
      exact List.mem_cons_self
    · exact List.mem_append_right _ (ih h _)

theorem safe_memtestReply (request : List UInt8) (result : Int) :
    Safe (memtestReply request result) :=
  safe_call_bind fun _ => safe_pure _

/-- What follows a load that is safe is safe for the bytes read. -/
theorem SafeAt.load_some_bind {k : Option (List UInt8) → Sys α}
    (h : SafeAt v ((load a n >>= fun bytes => pure (some bytes)) >>= k)) :
    SafeAt v (k (some (bytesAt v.memory a n))) := by
  rintro w rfl e he
  exact h w rfl e (List.mem_cons_of_mem _ he)

/-- The first part of a safe call is safe. -/
theorem SafeAt.bind_left {β : Type} {p : Sys α} {k : α → Sys β} (h : SafeAt v (p >>= k)) :
    SafeAt v p :=
  fun w hw e he => h w hw e (List.mem_append_left _ he)

/-- A call that is safe here, followed by one that is safe anywhere. -/
theorem SafeAt.bind {β : Type} {p : Sys α} {k : α → Sys β} (h : SafeAt v p)
    (hk : ∀ a, Safe (k a)) : SafeAt v (p >>= k) := by
  intro w hw e he
  rcases List.mem_append.mp he with he | he
  · exact h w hw e he
  · exact (hk _).touches he

/-- The operations other than the query of the status touch no memory but the request. -/
theorem safeAt_memtestCtl (request : List UInt8) : SafeAt v (memtestCtl request) ↔
    (field32 request 0 = 3 → v.memtest.supplied = true →
      ∀ page ∈ (Memtest.memtestStep v.frameBits v.memtest).1,
      InUser page (Memtest.testedBytes v.memtest.rangeEnd page)) := by
  constructor
  · intro h hop hsupplied page hpage
    have hstore := h (steadyWorld v agreeing) rfl (.store page (Memtest.testedBytes v.memtest.rangeEnd page))
    apply hstore
    unfold memtestCtl
    rw [hop, if_neg (by decide), if_neg (by decide), if_pos rfl]
    simp only [Traced.log_bind, Traced.log_reads, Traced.result_reads, Traced.state_reads,
      List.nil_append]
    exact List.mem_append_left _ (store_mem_testPages hsupplied hpage _)
  · intro h
    unfold memtestCtl
    refine safeAt_ite (fun _ => ?_) fun _ => ?_
    · refine safeAt_memtest_bind (safeAt_frameBits_bind ?_)
      exact (safe_bind (safe_modifies _) fun _ => safe_memtestReply _ _).at
    refine safeAt_ite (fun _ => ?_) fun _ => ?_
    · exact (safe_bind (safe_modifies _) fun _ => safe_memtestReply _ _).at
    refine safeAt_ite (fun hop => ?_) fun _ => ?_
    · refine safeAt_memtest_bind (safeAt_frameBits_bind ?_)
      apply Safe.at
      exact safe_bind (safe_testPages (h hop)) fun _ => safe_bind (safe_modifies _) fun _ =>
        safe_memtestReply _ _
    exact (safe_branch (safe_memtestReply _ _) (safe_pure _)).at

/-- A record that is handed on is copied in after its check; then the service decides. -/
theorem safeAt_passRequest (ptr size : UInt64) (hsize : size ≠ 0)
    (service : List UInt8 → Sys (List UInt8 × UInt64)) :
    SafeAt v (passRequest ptr size service) ↔
      (appMemoryUserRange ptr size = true →
        SafeAt v (service (bytesAt v.memory ptr size.toNat))) := by
  unfold passRequest
  constructor
  · intro h hrange
    have hptr := ne_zero_of_range hrange hsize
    rw [if_neg (by simp [hptr, hrange]), copyFromUser_of_range hrange hsize] at h
    have h := SafeAt.load_some_bind h
    dsimp only at h
    exact h.bind_left
  · intro h
    refine safeAt_ite (fun _ => (safe_pure _).at) fun hne => ?_
    rw [not_or] at hne
    have hrange : appMemoryUserRange ptr size = true := by simpa using hne.2
    rw [copyFromUser_of_range hrange hsize]
    have hservice := (h hrange).bind fun r => safe_replyOrAbort ptr r.1 size r.2
    rintro w rfl e he
    rcases List.mem_cons.mp he with rfl | he
    · exact inUser_of_range hrange
    · exact hservice w rfl e he

/-- `SYS_MEMTEST_CTL` is safe if and only if the pages that its step tests are the user's or frames
of the pool. -/
theorem safeAt_sysMemtestCtl (ptr : UInt64) :
    SafeAt v (sysMemtestCtl ptr) ↔ MemtestChecked v ptr := by
  unfold sysMemtestCtl MemtestChecked
  rw [safeAt_passRequest ptr 896 (by decide), safeAt_memtestCtl, Memtest.memtestStep_pages,
    show (896 : UInt64).toNat = 896 from rfl]
  cases v.memtest.running with
  | false => simp
  | true =>
    cases v.memtest.cancelled with
    | true => simp
    | false => simp

/-- What the arguments of a system call have to satisfy, given the memory and the breakpoints, for
the kernel to stay within the user memory.  The calls that are not listed check their pointers. -/
structure PointersChecked (v : SysView) (f : Syscalls.SyscallFrame) : Prop where
  printer : f.rax = 57 → PreviewChecked v.memory f.rbx
  fsCache : f.rax = 58 → f.rbx = 0 → f.rcx ≠ 0 → InUser f.rcx 112
  zcomp : f.rax = 59 → f.rbx = 0 → f.rcx ≠ 0 → InUser f.rcx 120
  iosched : f.rax = 60 → f.rbx = 0 → f.rcx ≠ 0 → InUser f.rcx 112
  gpuAccel : f.rax = 61 → f.rbx = 0 → f.rcx ≠ 0 → InUser f.rcx 104
  usbPrinter : f.rax = 65 → f.rbx = 6 → f.rdx ≠ 0 → InUser f.rdx 16
  debug : f.rax = 67 → DebugChecked v.memory v.swBp f.rbx f.rcx f.rdx
  capture : f.rax = 80 → CaptureChecked v.memory f.rbx f.rcx f.rdx f.rsi f.rdi
  waitpid : f.rax = 83 → f.rcx ≠ 0 → InUser f.rcx 4
  backup : f.rax = 96 → v.privilegeLevel ≤ execPrivR2 → f.rbx.toUInt32 = 2 ∨ f.rbx.toUInt32 = 7 → SectorsChecked f.rdx f.rsi
  memtest : f.rax = 102 → MemtestChecked v f.rbx

/-- The first group of system calls checks every pointer. -/
theorem safe_dispatchBasic (f : Syscalls.SyscallFrame) : Safe (dispatchBasic f) := by
  unfold dispatchBasic
  split
  · exact safe_callResult _ _ _
  · exact safe_sysLogString _
  · exact safe_callResult _ _ _
  · exact safe_sysFileRead _ _ _
  · exact safe_callDone _ _ _
  · exact safe_sysFileWrite _ _ _
  · exact safe_sysFileChange _ _
  · exact safe_sysFileChange _ _
  · exact safe_sysFileChange _ _
  · exact safe_sysFileListDir _ _ _
  · exact safe_syscallHandleWrite _ _ _
  · exact safe_syscallHandleRead _ _ _
  · exact safe_sysGetCwd _ _
  · exact safe_sysFileQuery _ _ _
  · exact safe_sysFileQuery _ _ _
  · exact safe_sysSnapshot _ _ _ _ _
  · exact safe_sysFileQuery _ _ _
  · exact safe_callDone _ _ _
  · exact safe_syscallSystemStatus _ _
  · exact safe_callStatus _ _ _
  · exact safe_callDone _ _ _
  · exact safe_sysAudioPlayPcm _
  · exact safe_callStatus _ _ _
  · exact safe_sysSocketCall _ _ _
  · exact safe_sysFutexCall _ _ _
  · exact safe_sysIpcCall _ _ _
  · exact safe_sysSignalCall _ _ _
  · exact safe_sysRequestR0
  · exact safe_sysRequestR2 _
  · exact safe_lookupText _ _ _ _ _
  · exact safe_assignText _ _ _ _ _
  · exact safe_lookupText _ _ _ _ _
  · exact safe_assignText _ _ _ _ _
  · exact safe_syscallExecDefer _
  · exact safe_syscallInstallerCall _ _ _
  · exact safe_sysGraphicsDrawText _ _ _
  · exact safe_sysConsoleSetTitle _
  · exact safe_callStatus _ _ _
  · exact safe_callResult _ _ _
  · exact safe_callResult _ _ _
  · exact safe_sysDriverLoad _
  · exact safe_sysDriverUnload _
  · exact safe_sysSnapshot _ _ _ _ _
  · exact safe_sysHttpGetUrl _ _ _
  · exact safe_pure _

/-- The second group is safe when the pointers it leaves unchecked are the user's. -/
theorem safeAt_dispatchExpansion (h : PointersChecked v f) :
    SafeAt v (dispatchExpansion f) := by
  unfold dispatchExpansion
  split
  · exact (safe_sysClipboardSet _).at
  · exact (safe_sysClipboardCopy _ _ _ fun _ => safe_pure _).at
  · exact (safe_sysClipboardCopy _ _ _ fun _ => safe_callResult _ _ _).at
  · exact (safe_sysNotificationPost _ _).at
  · exact (safe_callDone _ _ _).at
  · exact (safe_withUserText (fun _ => safe_callDone _ _ _) _ _).at
  · exact (safe_callStatus _ _ _).at
  · exact (safe_sysProcessRecord _ _ _ _).at
  · exact (safe_sysProcessTerminate _).at
  · exact (safe_sysProcessRecord _ _ _ _).at
  · exact (safe_ite (fun _ => safe_callStatus _ _ _) fun _ => safe_pure _).at
  · exact (safe_pure _).at
  · exact (safe_callStatus _ _ _).at
  next hrax => exact (safeAt_sysPrinterCtl _).mpr (h.printer hrax)
  next hrax => exact (safeAt_fsCacheCtl _ _).mpr (h.fsCache hrax)
  next hrax => exact (safeAt_zcompCtl _ _).mpr (h.zcomp hrax)
  next hrax => exact (safeAt_ioschedCtl _ _).mpr (h.iosched hrax)
  next hrax => exact (safeAt_gpuAccelCtl _ _ _).mpr (h.gpuAccel hrax)
  · exact (safe_sysFirewallCtl _ _ _).at
  · exact (safe_sysEfsCtl _ _).at
  · exact (safe_sysUacElevate _ _ _).at
  next hrax => exact (safeAt_usbMountCtl _ _ _).mpr (h.usbPrinter hrax)
  · exact (safe_pure _).at
  next hrax => exact (safeAt_debugCtl _ _ _).mpr (h.debug hrax)
  · exact (safe_callResult _ _ _).at
  · exact (safe_pure _).at
  · exact (safe_pure _).at

/-- The third group is safe when the pointers it leaves unchecked are the user's. -/
theorem safeAt_dispatchLate (h : PointersChecked v f) :
    SafeAt v (dispatchLate f) := by
  unfold dispatchLate
  split
  · exact (safe_sysNetPing _).at
  · exact (safe_sysNetResolve _ _ _).at
  · exact (safe_sysKeyboardReadEvent _).at
  · exact (safe_sysGraphicsReadFramebuffer _ _).at
  · exact (safe_sysAudioPlayerCtl _).at
  · exact (safe_sysGetRtcTime _).at
  · exact (safe_callResult _ _ _).at
  · exact (safe_callDone _ _ _).at
  · exact (safe_sysProfilerGetData _ _).at
  · exact (safe_sysMemoryStats _).at
  next hrax => exact (safeAt_sysExecCapture _ _ _ _ _).mpr (h.capture hrax)
  · exact (safe_callResult _ _ _).at
  next hrax => exact (safeAt_sysWaitpid _ _).mpr (h.waitpid hrax)
  · exact (safe_callResult _ _ _).at
  · exact (safe_callResult _ _ _).at
  · exact (safe_callDone _ _ _).at
  · exact (safe_callDone _ _ _).at
  next hrax => exact (safeAt_sysBackupCtl _ _ _ _ _).mpr (h.backup hrax)
  · exact (safe_sysGraphicsBlit _ _ _).at
  · exact (safe_sysAudioRecCtl _).at
  · exact (safe_videoCtl _).at
  · exact (safe_lptCtl _ _ _).at
  next hrax => exact (safeAt_sysMemtestCtl _).mpr (h.memtest hrax)
  · exact (safe_sysPipe _).at
  · exact (safe_sysShmCall _ _ _).at
  · exact (safe_callResult _ _ _).at
  · exact (safe_sysGetpgid _).at
  · exact (safe_callResult _ _ _).at
  · exact (safe_pure _).at

/-- A call that touches only memory of the user had user addresses where nothing is checked. -/
theorem pointersChecked_of_safeAt (h : SafeAt v (syscallInterruptDispatch f)) :
    PointersChecked v f := by
  unfold syscallInterruptDispatch at h
  constructor
  case printer =>
    intro hrax
    apply (safeAt_sysPrinterCtl _).mp
    simpa [dispatchExpansion, hrax] using h
  case fsCache =>
    intro hrax
    apply (safeAt_fsCacheCtl _ _).mp
    simpa [dispatchExpansion, hrax] using h
  case zcomp =>
    intro hrax
    apply (safeAt_zcompCtl _ _).mp
    simpa [dispatchExpansion, hrax] using h
  case iosched =>
    intro hrax
    apply (safeAt_ioschedCtl _ _).mp
    simpa [dispatchExpansion, hrax] using h
  case gpuAccel =>
    intro hrax
    apply (safeAt_gpuAccelCtl _ _ _).mp
    simpa [dispatchExpansion, hrax] using h
  case usbPrinter =>
    intro hrax
    apply (safeAt_usbMountCtl _ _ _).mp
    simpa [dispatchExpansion, hrax] using h
  case debug =>
    intro hrax
    apply (safeAt_debugCtl _ _ _).mp
    simpa [dispatchExpansion, hrax] using h
  case capture =>
    intro hrax
    apply (safeAt_sysExecCapture _ _ _ _ _).mp
    simpa [dispatchLate, hrax] using h
  case waitpid =>
    intro hrax
    apply (safeAt_sysWaitpid _ _).mp
    simpa [dispatchLate, hrax] using h
  case backup =>
    intro hrax
    apply (safeAt_sysBackupCtl _ _ _ _ _).mp
    simpa [dispatchLate, hrax] using h
  case memtest =>
    intro hrax
    apply (safeAt_sysMemtestCtl _).mp
    simpa [dispatchLate, hrax] using h

/-- A system call touches nothing but user memory, whatever the state of the kernel, just when its
pointers are as `PointersChecked` says. -/
theorem touchesOnlyUser_iff (v : SysView) (f : Syscalls.SyscallFrame) :
    (∀ w : SysWorld, viewOf w = v → ∀ e ∈ (syscallInterruptDispatch f).log w, TouchesUser e) ↔
      PointersChecked v f := by
  constructor
  · exact pointersChecked_of_safeAt
  · intro h
    refine safeAt_ite (fun _ => (safe_dispatchBasic f).at) fun _ => ?_
    exact safeAt_ite (fun _ => safeAt_dispatchExpansion h) fun _ => safeAt_dispatchLate h

/-- `SYS_FS_CACHE_CTL` writes the status of the cache wherever it is asked to, here to the kernel's
own memory. -/
theorem touchesKernel_fsCacheStatus :
    ¬ ∀ (f : Syscalls.SyscallFrame) (w : SysWorld), ∀ e ∈
      (syscallInterruptDispatch f).log w, TouchesUser e := by
  intro h
  have hstore := h { rax := 58, rbx := 0, rcx := 0x100000 } (steadyWorld ⟨fun _ => 0, [], execPrivR3, {}, fun _ => false⟩ agreeing)
    (.store 0x100000 112) (by simp [syscallInterruptDispatch, dispatchExpansion, fsCacheCtl, ctlStatus])
  exact absurd (hstore 0 (by decide)) (by decide)

end Monios.Analysis
