import Monios.Model.Syscalls.Dispatch

/-!
# System calls that check their pointers

`Safe m` says that whatever the state and the answers of the rest of the kernel, `m` touches no byte
outside the user memory through a pointer of the process. The functions of `app_memory.c` are safe,
and so is every handler that reaches the process only through them or within a range it has checked.
-/

set_option autoImplicit false

namespace Monios.Analysis

open Monios.Library Monios.Model Monios.Model.Syscalls
open Monios.Library.Traced (Emits)

variable (f : KernelFunction) (ptr : UInt64)

def InUser (a : UInt64) (n : Nat) : Prop := ∀ i < n, UserRegion (a + UInt64.ofNat i)

def TouchesUser : SysEvent → Prop
  | .load a n => InUser a n
  | .store a n => InUser a n
  | .call _ => True

/-- The first `k` bytes of a range of the user are the user's too. -/
theorem InUser.mono {a : UInt64} {n k : Nat} (h : InUser a n) (hk : k ≤ n) : InUser a k :=
  fun i hi => h i (lt_of_lt_of_le hi hk)

theorem inUser_zero (a : UInt64) : InUser a 0 := fun _ hi => absurd hi (Nat.not_lt_zero _)

/-- What `app_memory_user_range` accepts lies in the memory of the process. -/
theorem inUser_of_range {ptr size : UInt64} (h : appMemoryUserRange ptr size = true) :
    InUser ptr size.toNat := by
  intro i hi
  have hsize := size.toNat_lt
  have hne : size ≠ 0 := by
    rintro rfl
    exact absurd hi (Nat.not_lt_zero _)
  unfold appMemoryUserRange execUserRangeValid at h
  rw [if_neg hne] at h
  split at h
  · exact nomatch h
  split at h
  · exact nomatch h
  next hlow =>
    split at h
    · exact nomatch h
    next hhigh =>
      rw [not_or] at hlow hhigh
      have hmin : execUserAddressMin.toNat = 0x04000000 := rfl
      have hmax : execUserAddressMax.toNat = 0x04400000 := rfl
      have hi64 : (UInt64.ofNat i).toNat = i := by
        rw [UInt64.toNat_ofNat']
        omega
      have hlow1 := hlow.1
      have hlow2 := hlow.2
      have hhigh1 := hhigh.1
      have hhigh2 := hhigh.2
      rw [UInt64.lt_iff_toNat_lt] at hlow1 hhigh1
      rw [ge_iff_le, UInt64.le_iff_toNat_le] at hlow2
      rw [gt_iff_lt, UInt64.lt_iff_toNat_lt] at hhigh2
      rw [UInt64.toNat_add] at hhigh1 hhigh2
      unfold UserRegion
      rw [UInt64.le_iff_toNat_le, UInt64.lt_iff_toNat_lt, UInt64.toNat_add, hi64]
      omega

abbrev Safe {α : Type} (m : Sys α) : Prop := Emits (fun _ => True) TouchesUser m

variable {α β : Type}

/-- A call that only returns touches no memory. -/
theorem safe_pure (a : α) : Safe (pure a : Sys α) := Emits.pure a

/-- One safe call after the other is safe. -/
theorem safe_bind {m : Sys α} {f : α → Sys β} (hm : Safe m) (hf : ∀ a, Safe (f a)) :
    Safe (m >>= f) := Emits.bind hm hf

/-- A branch is safe when each side is under its own condition. -/
theorem safe_ite {c : Prop} [Decidable c] {m m' : Sys α} (hm : c → Safe m) (hm' : ¬ c → Safe m') :
    Safe (if c then m else m') := Emits.ite hm hm'

/-- Looking at the state of the kernel touches no memory of the process. -/
theorem safe_reads (g : SysWorld → α) : Safe (Traced.reads g) := Emits.reads g

/-- Changing the state of the kernel touches no memory of the process. -/
theorem safe_modifies (g : SysWorld → SysWorld) : Safe (Traced.modifies g) :=
  Emits.modifies fun _ _ => trivial

/-- A load from a range of the user is safe. -/
theorem safe_load {a : UInt64} {n : Nat} (h : InUser a n) : Safe (load a n) :=
  safe_bind (Emits.emit h) fun _ => safe_reads _

/-- A store to a range of the user is safe. -/
theorem safe_store {a : UInt64} {n : Nat} (h : InUser a n) (bytes : List UInt8) :
    Safe (store a n bytes) :=
  safe_bind (Emits.emit h) fun _ => safe_modifies _

/-- What a service of the kernel gets are values and copies, so that calling it is safe. -/
theorem safe_call (args : List UInt64) (data : List (List UInt8)) : Safe (call f args data) := by
  unfold call
  refine safe_bind (Emits.emit trivial) fun _ => ?_
  refine safe_bind (safe_reads _) fun _ => ?_
  exact safe_bind (safe_modifies _) fun _ => safe_pure _

/-- A service may answer anything; what follows has to be safe for every answer. -/
theorem safe_call_bind {f : KernelFunction} {args : List UInt64} {data : List (List UInt8)}
    {k : Answer → Sys α} (hk : ∀ a, Safe (k a)) : Safe (call f args data >>= k) :=
  safe_bind (safe_call f args data) hk

theorem safe_branch {c : Prop} [Decidable c] {m m' : Sys α} (hm : Safe m) (hm' : Safe m') :
    Safe (if c then m else m') :=
  safe_ite (fun _ => hm) fun _ => hm'

/-- An early return in front of a safe call keeps it safe. -/
theorem safe_guard {c : Prop} [Decidable c] {a : α} {m : Sys α} (hm : Safe m) :
    Safe (if c then pure a else m) :=
  safe_branch (safe_pure _) hm

theorem safe_bind_pure {m : Sys α} {g : α → β} (hm : Safe m) : Safe (m >>= fun a => pure (g a)) :=
  safe_bind hm fun _ => safe_pure _

/-- A copy that may fail, with both its outcomes. -/
theorem safe_bind_option {m : Sys (Option α)} {k : Option α → Sys β} (hm : Safe m)
    (hnone : Safe (k none)) (hsome : ∀ a, Safe (k (some a))) : Safe (m >>= k) := by
  refine safe_bind hm fun r => ?_
  cases r with
  | none => exact hnone
  | some a => exact hsome a

theorem safe_call_pure {f : KernelFunction} {args : List UInt64} {data : List (List UInt8)}
    {g : Answer → α} :
    Safe (call f args data >>= fun a => pure (g a)) := safe_call_bind fun _ => safe_pure _

theorem safe_callResult (args : List UInt64) (data : List (List UInt8)) :
    Safe (callResult f args data) := safe_call_pure

theorem safe_callDone (args : List UInt64) (data : List (List UInt8)) :
    Safe (callDone f args data) := safe_call_pure

theorem safe_callStatus (args : List UInt64) (data : List (List UInt8)) :
    Safe (callStatus f args data) := safe_call_pure

theorem safe_abort : Safe abort := safe_call_bind fun _ => safe_pure _

/-- Behind a successful `app_memory_user_range` the range may be used. -/
theorem safe_range {ptr size : UInt64} {m m' : Sys α} (hm : Safe m)
    (hm' : InUser ptr size.toNat → Safe m') :
    Safe (if !appMemoryUserRange ptr size then m else m') := by
  refine safe_ite (fun _ => hm) fun h => hm' ?_
  apply inUser_of_range
  simpa using h

/-- `app_memory_copy_from_user` checks its source before it reads. -/
theorem safe_copyFromUser (src size : UInt64) : Safe (appMemoryCopyFromUser src size) := by
  unfold appMemoryCopyFromUser
  refine safe_guard ?_
  refine safe_range (safe_pure _) fun h => ?_
  exact safe_bind (safe_load h) fun _ => safe_pure _

/-- `app_memory_copy_to_user` checks its destination before it writes. -/
theorem safe_copyToUser (dst : UInt64) (bytes : List UInt8) (size : UInt64) :
    Safe (appMemoryCopyToUser dst bytes size) := by
  unfold appMemoryCopyToUser
  refine safe_guard ?_
  refine safe_range (safe_pure _) fun h => ?_
  exact safe_bind (safe_store h _) fun _ => safe_pure _

/-- A string is copied byte by byte, each byte checked before it is read. -/
theorem safe_copyStringFrom (src : UInt64) (n index : Nat) (copied : List UInt8) :
    Safe (copyStringFrom src n index copied) := by
  induction n generalizing index copied with
  | zero => exact safe_pure _
  | succ n ih =>
    unfold copyStringFrom
    refine safe_ite (fun _ => safe_pure _) fun h => ?_
    rw [not_or] at h
    have hin : InUser (src + UInt64.ofNat index) 1 := inUser_of_range (by simpa using h.2)
    refine safe_bind (safe_load hin) fun byte => ?_
    exact safe_guard (ih _ _)

/-- `app_memory_copy_string_from_user` reads no byte that it has not checked. -/
theorem safe_copyString (dstSize : Nat) (src : UInt64) :
    Safe (appMemoryCopyStringFromUser dstSize src) := by
  unfold appMemoryCopyStringFromUser
  refine safe_guard ?_
  exact safe_bind (safe_copyStringFrom _ _ _ _) fun _ => safe_pure _

/-- A path is copied as a string and resolved in memory of the kernel. -/
theorem safe_resolvePath (path : UInt64) : Safe (syscallResolvePath path) := by
  unfold syscallResolvePath
  refine safe_guard ?_
  exact safe_bind_option (safe_copyString _ _) (safe_pure _) fun userPath => safe_bind
    (safe_reads _) fun _ => safe_pure _

/-- A reply is copied out with a check or the call ends. -/
theorem safe_replyOrAbort (dst : UInt64) (bytes : List UInt8) (size result : UInt64) :
    Safe (replyOrAbort dst bytes size result) :=
  safe_bind (safe_copyToUser _ _ _) fun _ => safe_guard safe_abort

/-- A request record is copied in, handled, and copied back. -/
theorem safe_withRequest (ptr size requestSize : UInt64) {handle : List UInt8 → Sys UInt64}
    (hhandle : ∀ request, Safe (handle request)) :
    Safe (withRequest ptr size requestSize handle) := by
  unfold withRequest
  refine safe_guard ?_
  exact safe_bind_option (safe_copyFromUser _ _) (safe_pure _) fun request => hhandle request

theorem safe_socketOpen (ptr size : UInt64) : Safe (socketOpen f ptr size) :=
  safe_withRequest _ _ _ fun _ => safe_call_bind fun _ => safe_replyOrAbort _ _ _ _

/-- The text to send is checked for the length that the request gives. -/
theorem safe_socketSendto (ptr size : UInt64) : Safe (socketSendto ptr size) := by
  refine safe_withRequest _ _ _ fun request => ?_
  refine safe_guard ?_
  refine safe_range safe_abort fun h => ?_
  exact safe_bind (safe_load h) fun _ => safe_callResult _ _ _

/-- The buffer of the request is checked for its capacity. -/
theorem safe_socketRecvfrom (ptr size : UInt64) : Safe (socketRecvfrom ptr size) := by
  refine safe_withRequest _ _ _ fun request => ?_
  refine safe_range safe_abort fun h => ?_
  refine safe_call_bind fun a => ?_
  refine safe_ite (fun _ => ?_) fun _ => safe_pure _
  exact safe_bind (safe_store (h.mono (Nat.min_le_right _ _)) _) fun _ => safe_replyOrAbort _ _ _ _

theorem safe_socketTcpConnect (ptr size : UInt64) : Safe (socketTcpConnect ptr size) :=
  safe_withRequest _ _ _ fun _ => safe_ite (fun _ => safe_pure _) fun _ => safe_callStatus _ _ _

/-- The data to send are checked for the length that the request gives. -/
theorem safe_socketTcpSend (ptr size : UInt64) : Safe (socketTcpSend ptr size) := by
  refine safe_withRequest _ _ _ fun request => ?_
  refine safe_range safe_abort fun h => ?_
  exact safe_bind (safe_load h) fun _ => safe_callResult _ _ _

/-- The buffer of the request is checked for its capacity. -/
theorem safe_socketTcpRecv (ptr size : UInt64) : Safe (socketTcpRecv ptr size) := by
  refine safe_withRequest _ _ _ fun request => ?_
  refine safe_range safe_abort fun h => ?_
  refine safe_call_bind fun a => ?_
  exact safe_bind (safe_store (h.mono (Nat.min_le_right _ _)) _) fun _ => safe_pure _

theorem safe_socketTcpAccept (ptr size : UInt64) : Safe (socketTcpAccept ptr size) :=
  safe_withRequest _ _ _ fun _ => safe_call_bind fun _ => safe_replyOrAbort _ _ _ _

theorem safe_socketTcpListen (ptr size : UInt64) : Safe (withRequest ptr size 4 fun request => do
      let a ← call .socketTcpListen [field32 request 0] []
      pure (if a.value = 0 then 0 else fail)) :=
  safe_withRequest _ _ _ fun _ => safe_call_pure

/-- Every operation of `SYS_SOCKET_CALL` checks what it is given. -/
theorem safe_sysSocketCall (op ptr size : UInt64) : Safe (sysSocketCall op ptr size) := by
  unfold sysSocketCall
  refine safe_branch (safe_socketOpen _ _ _) ?_
  refine safe_branch (safe_callStatus _ _ _) ?_
  refine safe_branch (safe_socketSendto _ _) ?_
  refine safe_branch (safe_socketRecvfrom _ _) ?_
  refine safe_branch (safe_socketOpen _ _ _) ?_
  refine safe_branch (safe_socketTcpConnect _ _) ?_
  refine safe_branch (safe_socketTcpSend _ _) ?_
  refine safe_branch (safe_socketTcpRecv _ _) ?_
  refine safe_branch (safe_callResult _ _ _) ?_
  refine safe_branch (safe_callResult _ _ _) ?_
  refine safe_branch (safe_socketTcpListen _ _) ?_
  exact safe_branch (safe_socketTcpAccept _ _) (safe_pure _)

/-- The futex calls hand over an address; they do not read it. -/
theorem safe_futexCall (ptr size requestSize : UInt64) (args : List UInt8 → List UInt64)
    (resultAt : Nat) (result : Int → UInt64) :
    Safe (futexCall f ptr size requestSize args resultAt result) := by
  refine safe_withRequest _ _ _ fun request => ?_
  refine safe_guard ?_
  exact safe_call_bind fun _ => safe_replyOrAbort _ _ _ _

theorem safe_sysFutexCall (op ptr size : UInt64) : Safe (sysFutexCall op ptr size) := by
  unfold sysFutexCall
  refine safe_branch (safe_futexCall _ _ _ _ _ _ _) ?_
  refine safe_branch (safe_futexCall _ _ _ _ _ _ _) ?_
  exact safe_branch (safe_futexCall _ _ _ _ _ _ _) (safe_pure _)

/-- A message is received into memory of the kernel and copied out. -/
theorem safe_ipcRecv (ptr size : UInt64) : Safe (ipcRecv ptr size) := by
  refine safe_withRequest _ _ _ fun request => ?_
  refine safe_range safe_abort fun _ => ?_
  refine safe_call_bind fun a => ?_
  refine safe_ite (fun _ => ?_) fun _ => safe_replyOrAbort _ _ _ _
  refine safe_bind (safe_copyToUser _ _ _) fun copied => ?_
  exact safe_branch (safe_replyOrAbort _ _ _ _) safe_abort

/-- Every operation of `SYS_IPC_CALL` checks what it is given. -/
theorem safe_sysIpcCall (op ptr size : UInt64) : Safe (sysIpcCall op ptr size) := by
  unfold sysIpcCall
  refine safe_ite (fun _ => ?_) fun _ => safe_branch ?_ ?_
  · refine safe_withRequest _ _ _ fun request => ?_
    refine safe_guard ?_
    exact safe_call_bind fun _ => safe_replyOrAbort _ _ _ _
  · refine safe_withRequest _ _ _ fun request => ?_
    exact safe_guard (safe_callStatus _ _ _)
  · exact safe_branch (safe_ipcRecv _ _) (safe_pure _)

theorem safe_signalTargetAllowed (pid : UInt64) : Safe (syscallSignalTargetAllowed pid) := by
  refine safe_bind (safe_reads _) fun level => ?_
  exact safe_guard (safe_call_pure)

/-- Every operation of `SYS_SIGNAL_CALL` checks what it is given. -/
theorem safe_sysSignalCall (op ptr size : UInt64) : Safe (sysSignalCall op ptr size) := by
  refine safe_withRequest _ _ _ fun request => ?_
  refine safe_bind (safe_signalTargetAllowed _) fun allowed => ?_
  refine safe_guard ?_
  refine safe_branch (safe_callStatus _ _ _) ?_
  refine safe_branch (safe_call_bind fun _ => safe_replyOrAbort _ _ _ _) ?_
  refine safe_branch (safe_call_bind fun _ => safe_replyOrAbort _ _ _ _) ?_
  exact safe_branch (safe_callDone _ _ _) (safe_pure _)

/-- A name goes in as a string, the text for it comes out by a checked copy. -/
theorem safe_lookupText (nameMax : Nat) (namePtr textPtr textSize : UInt64) :
    Safe (lookupText f nameMax namePtr textPtr textSize) := by
  unfold lookupText
  refine safe_guard ?_
  refine safe_bind_option (safe_copyString _ _) safe_abort fun name => ?_
  refine safe_range safe_abort fun _ => ?_
  refine safe_call_bind fun a => ?_
  refine safe_guard ?_
  exact safe_replyOrAbort _ _ _ _

/-- A name and a text go in as strings. -/
theorem safe_assignText (nameMax textMax : Nat) (namePtr textPtr : UInt64) :
    Safe (assignText f nameMax textMax namePtr textPtr) := by
  unfold assignText
  refine safe_guard ?_
  refine safe_bind (safe_reads _) fun level => ?_
  refine safe_guard ?_
  refine safe_bind_option (safe_copyString _ _) safe_abort fun name => ?_
  exact safe_bind_option (safe_copyString _ _) safe_abort fun text => safe_callStatus _ _ _

theorem safe_syscallExecDefer (pathPtr : UInt64) : Safe (syscallExecDefer pathPtr) := by
  refine safe_bind (safe_reads _) fun level => ?_
  refine safe_guard ?_
  exact safe_bind_option (safe_copyString _ _) safe_abort fun path => safe_callStatus _ _ _

section

variable {handle : List UInt8 → Sys UInt64} (hhandle : ∀ bytes, Safe (handle bytes))

include hhandle

theorem safe_withInstallerRequest (ptr size requestSize : UInt64) :
    Safe (withInstallerRequest ptr size requestSize handle) := by
  unfold withInstallerRequest
  refine safe_guard ?_
  exact safe_bind_option (safe_copyFromUser _ _) safe_abort fun request => hhandle request

/-- The paths of an installer request are copied as strings. -/
theorem safe_withUserPath (ptr : UInt64) : Safe (withUserPath ptr handle) := by
  exact safe_bind_option (safe_copyString _ _) safe_abort fun path => hhandle path.val

/-- The data of an installer request are checked for their count. -/
theorem safe_withUserData (ptr count : UInt64) : Safe (withUserData ptr count handle) := by
  unfold withUserData
  refine safe_branch safe_abort ?_
  exact safe_bind_option (safe_copyFromUser _ _) safe_abort fun data => hhandle data

theorem safe_withUserText (max : Nat) (ptr : UInt64) : Safe (withUserText max ptr handle) := by
  exact safe_bind_option (safe_copyString _ _) safe_abort fun text => hhandle text.val

end

/-- The result of an installer call is put into the request that was checked before. -/
theorem safe_replyWritten (request : List UInt8) (o : Nat) (size : UInt64) (a : Answer) :
    Safe (replyWritten ptr request o size a) := safe_replyOrAbort _ _ _ _

theorem safe_installerReadMedia (ptr size : UInt64) :
    Safe (withInstallerRequest ptr size 32 fun request =>
      withUserPath (field64 request 0) fun source =>
        if field32 request 24 > 4096 then abort
        else do
          let a ← call .installerReadMediaFile [field32 request 8, field32 request 24] [source]
          if a.value > 0 then do
            let copied ← appMemoryCopyToUser (field64 request 16) a.data (toRax a.value)
            if copied then replyWritten ptr request 28 32 a else abort
          else replyWritten ptr request 28 32 a) := by
  refine safe_withInstallerRequest (fun request => safe_withUserPath (fun source => ?_) _) _ _ _
  refine safe_branch safe_abort ?_
  refine safe_call_bind fun a => ?_
  refine safe_ite (fun _ => ?_) fun _ => safe_replyWritten _ _ _ _ _
  refine safe_bind (safe_copyToUser _ _ _) fun copied => ?_
  exact safe_branch (safe_replyWritten _ _ _ _ _) safe_abort

/-- Every operation of `SYS_INSTALLER_CALL` checks what it is given. -/
theorem safe_syscallInstallerCall (op ptr size : UInt64) :
    Safe (syscallInstallerCall op ptr size) := by
  have hdone (request : List UInt8) (o : Nat) (n : UInt64) (f : KernelFunction) (args : List UInt64)
      (data : List (List UInt8)) : Safe (call f args data >>= fun a => replyWritten ptr request o n a) :=
    safe_call_bind fun _ => safe_replyWritten _ _ _ _ _
  unfold syscallInstallerCall
  refine safe_branch (safe_callResult _ _ _) ?_
  refine safe_branch (safe_callDone _ _ _) ?_
  refine safe_ite (fun _ => ?_) fun _ => safe_ite (fun _ => ?_) fun _ => safe_ite
    (fun _ => ?_) fun _ =>
    safe_ite (fun _ => ?_) fun _ => safe_ite (fun _ => ?_) fun _ => safe_ite (fun _ => safe_installerReadMedia _ _) fun _ =>
    safe_ite (fun _ => ?_) fun _ => safe_pure _
  · refine safe_guard ?_
    exact safe_call_bind fun _ => safe_ite (fun _ => safe_pure _) fun _ => safe_replyOrAbort _ _ _ _
  · exact safe_withInstallerRequest (fun _ => safe_withUserPath (fun _ => hdone _ _ _ _ _ _) _) _ _ _
  · exact safe_withInstallerRequest (fun _ => safe_withUserData (fun _ => hdone _ _ _ _ _ _) _ _) _ _ _
  · refine safe_withInstallerRequest (fun request => safe_withUserPath (fun target => ?_) _) _ _ _
    exact safe_withUserData (fun _ => hdone _ _ _ _ _ _) _ _
  · refine safe_withInstallerRequest (fun request => safe_withUserPath (fun source => ?_) _) _ _ _
    exact safe_withUserPath (fun _ => hdone _ _ _ _ _ _) _
  · refine safe_withInstallerRequest (fun request => safe_withUserPath (fun source => ?_) _) _ _ _
    exact safe_call_bind fun _ => safe_replyOrAbort _ _ _ _

/-- The loop of the printer port copies in pieces, each of them checked. -/
theorem safe_lptWriteLoop (src : UInt64) (rounds off len : Nat) :
    Safe (lptWriteLoop src rounds off len) := by
  induction rounds generalizing off with
  | zero => exact safe_pure _
  | succ rounds ih =>
    unfold lptWriteLoop
    refine safe_guard ?_
    exact safe_bind_option (safe_copyFromUser _ _) (safe_pure _) fun bytes =>
      safe_call_bind fun _ => ih _

theorem safe_lptCtl (cmd rcx rdx : UInt64) : Safe (lptCtl cmd rcx rdx) := by
  unfold lptCtl
  refine safe_branch (safe_callDone _ _ _) ?_
  refine safe_branch (safe_callDone _ _ _) ?_
  refine safe_branch (safe_callResult _ _ _) ?_
  refine safe_ite (fun _ => ?_) fun _ => safe_ite (fun _ => ?_) fun _ => safe_pure _
  · exact safe_guard (safe_lptWriteLoop _ _ _ _)
  · refine safe_call_bind fun spool => ?_
    exact safe_bind_pure (safe_copyToUser _ _ _)

theorem safe_videoCtl (arg0 : UInt64) : Safe (videoCtl arg0) := by
  unfold videoCtl
  refine safe_guard ?_
  refine safe_bind_option (safe_copyFromUser _ _) (safe_pure _) fun request => ?_
  refine safe_call_bind fun reply => ?_
  exact safe_bind_pure (safe_copyToUser _ _ _)

/-- A record that is handed to a service is checked for its whole size. -/
theorem safe_passRequest (ptr size : UInt64) {service : List UInt8 → Sys (List UInt8 × UInt64)}
    (hservice : ∀ request, Safe (service request)) : Safe (passRequest ptr size service) := by
  unfold passRequest
  refine safe_guard ?_
  exact safe_bind_option (safe_copyFromUser _ _) (safe_pure _) fun request => safe_bind
    (hservice request) fun _ => safe_replyOrAbort _ _ _ _

theorem safe_sysAudioPlayerCtl : Safe (sysAudioPlayerCtl ptr) :=
  safe_passRequest _ _ fun _ => safe_call_pure

theorem safe_sysAudioRecCtl : Safe (sysAudioRecCtl ptr) := by
  unfold sysAudioRecCtl
  refine safe_guard ?_
  refine safe_bind_option (safe_copyFromUser _ _) (safe_pure _) fun request => ?_
  refine safe_ite (fun _ => ?_) fun _ => safe_call_bind fun _ => safe_replyOrAbort _ _ _ _
  refine safe_call_bind fun a => ?_
  refine safe_range (safe_pure _) fun _ => ?_
  exact safe_bind (safe_copyToUser _ _ _) fun _ => safe_replyOrAbort _ _ _ _

/-- A record that a service fills is checked for its whole size. -/
theorem safe_fillRecord (ptr size : UInt64) : Safe (fillRecord f ptr size) := by
  refine safe_call_bind fun a => ?_
  exact safe_replyOrAbort _ _ _ _

theorem safe_sysLogString : Safe (sysLogString ptr) :=
  safe_ite (fun _ => safe_pure _) fun _ => safe_withUserText (fun _ => safe_callDone _ _ _) _ _

theorem safe_sysConsoleSetTitle : Safe (sysConsoleSetTitle ptr) := by
  refine safe_guard ?_
  exact safe_withUserText (fun _ => safe_call_bind fun _ => safe_callStatus _ _ _) _ _

/-- The current directory is copied out with its size checked. -/
theorem safe_sysGetCwd (ptr size : UInt64) : Safe (sysGetCwd ptr size) := by
  refine safe_bind (safe_reads _) fun cwd => ?_
  refine safe_guard ?_
  exact safe_replyOrAbort _ _ _ _

/-- A snapshot is written record by record into a buffer that was checked. -/
theorem safe_sysSnapshot (fails : Answer → Bool) (ptr size recordSize : UInt64) :
    Safe (sysSnapshot f fails ptr size recordSize) := by
  refine safe_guard ?_
  refine safe_call_bind fun a => ?_
  refine safe_guard ?_
  exact safe_replyOrAbort _ _ _ _

/-- The status text is copied out with its size checked. -/
theorem safe_syscallSystemStatus (ptr size : UInt64) : Safe (syscallSystemStatus ptr size) := by
  refine safe_guard ?_
  exact safe_range safe_abort fun _ => safe_fillRecord _ _ _

theorem safe_sysProcessRecord (index ptr size : UInt64) :
    Safe (sysProcessRecord f index ptr size) := by
  refine safe_call_bind fun a => ?_
  refine safe_guard ?_
  refine safe_range safe_abort fun _ => ?_
  exact safe_bind_pure (safe_copyToUser _ _ _)

theorem safe_sysKeyboardReadEvent : Safe (sysKeyboardReadEvent ptr) := by
  refine safe_guard ?_
  refine safe_call_bind fun a => ?_
  refine safe_guard ?_
  exact safe_replyOrAbort _ _ _ _

theorem safe_sysGetRtcTime : Safe (sysGetRtcTime ptr) := by
  refine safe_guard ?_
  refine safe_call_bind fun a => ?_
  exact safe_bind_pure (safe_copyToUser _ _ _)

/-- The guard that refuses a null pointer and a range outside the process. -/
theorem safe_checkedPointer {ptr size : UInt64} {m m' : Sys α} (hm : Safe m)
    (hm' : InUser ptr size.toNat → Safe m') :
    Safe (if ptr = 0 ∨ !appMemoryUserRange ptr size then m else m') := by
  refine safe_ite (fun _ => hm) fun h => hm' ?_
  rw [not_or] at h
  apply inUser_of_range
  simpa using h.2

theorem safe_sysProfilerGetData (ptr size : UInt64) : Safe (sysProfilerGetData ptr size) := by
  refine safe_checkedPointer (safe_pure _) fun h => ?_
  refine safe_call_bind fun a => ?_
  refine safe_ite (fun _ => safe_pure _) fun hfits => ?_
  exact safe_bind (safe_store (h.mono (Nat.le_of_not_lt hfits)) _) fun _ => safe_pure _

theorem safe_sysMemoryStats : Safe (sysMemoryStats ptr) := by
  refine safe_checkedPointer (safe_pure _) fun h => ?_
  refine safe_call_bind fun a => ?_
  exact safe_bind (safe_store h _) fun _ => safe_pure _

/-- The clipboard is copied out with the capacity checked. -/
theorem safe_sysClipboardCopy (ptr cap : UInt64) {empty : Nat → Sys UInt64}
    (hempty : ∀ n, Safe (empty n)) : Safe (sysClipboardCopy f ptr cap empty) := by
  refine safe_call_bind fun a => ?_
  refine safe_branch (hempty _) ?_
  exact safe_bind_pure (safe_copyToUser _ _ _)

/-- Cutting a size to 32 bits makes it no larger, so that the check of the full size is enough. -/
theorem toUInt32_toNat_le (size : UInt64) : size.toUInt32.toNat ≤ size.toNat := by
  rw [UInt64.toNat_toUInt32]
  exact Nat.mod_le _ _

/-- The buffer is checked for the size asked for, the path is copied. -/
theorem safe_sysFileRead (pathPtr buffer size : UInt64) :
    Safe (sysFileRead pathPtr buffer size) := by
  refine safe_bind_option (safe_resolvePath _) (safe_pure _) fun path => ?_
  refine safe_bind (safe_reads _) fun allowed => ?_
  refine safe_guard ?_
  refine safe_range safe_abort fun h => ?_
  refine safe_call_bind fun a => ?_
  refine safe_bind (safe_store (h.mono ?_) _) fun _ => safe_pure _
  exact le_trans (Nat.min_le_right _ _) (toUInt32_toNat_le size)

/-- The data are checked for the size given, the path is copied. -/
theorem safe_sysFileWrite (pathPtr buffer size : UInt64) :
    Safe (sysFileWrite pathPtr buffer size) := by
  refine safe_bind_option (safe_resolvePath _) (safe_pure _) fun path => ?_
  refine safe_bind (safe_reads _) fun allowed => ?_
  refine safe_guard ?_
  refine safe_range safe_abort fun h => ?_
  exact safe_bind (safe_load (h.mono (toUInt32_toNat_le size))) fun _ => safe_callResult _ _ _

theorem safe_sysFileChange (pathPtr : UInt64) : Safe (sysFileChange f pathPtr) := by
  refine safe_bind_option (safe_resolvePath _) (safe_pure _) fun path => ?_
  refine safe_bind (safe_reads _) fun allowed => ?_
  exact safe_guard (safe_callStatus _ _ _)

/-- The listing goes into a buffer that was checked. -/
theorem safe_sysFileListDir (pathPtr buffer size : UInt64) :
    Safe (sysFileListDir pathPtr buffer size) := by
  refine safe_bind_option (safe_resolvePath _) (safe_pure _) fun path => ?_
  refine safe_guard ?_
  refine safe_range safe_abort fun _ => ?_
  refine safe_call_bind fun a => ?_
  refine safe_guard ?_
  exact safe_bind_pure (safe_copyToUser _ _ _)

theorem safe_sysFileQuery (missing pathPtr : UInt64) : Safe (sysFileQuery f missing pathPtr) := by
  exact safe_bind_option (safe_resolvePath _) (safe_pure _) fun path => safe_callResult _ _ _

/-- The buffer of a write to a handle is checked before its kind is looked at. -/
theorem safe_syscallHandleWrite (handle buffer size : UInt64) :
    Safe (syscallHandleWrite handle buffer size) := by
  refine safe_guard ?_
  refine safe_range safe_abort fun h => ?_
  exact safe_bind (safe_load h) fun _ => safe_call_pure

/-- The buffer of a read from a handle is checked before its kind is looked at. -/
theorem safe_syscallHandleRead (handle buffer size : UInt64) :
    Safe (syscallHandleRead handle buffer size) := by
  refine safe_guard ?_
  refine safe_range safe_abort fun h => ?_
  refine safe_call_bind fun a => ?_
  exact safe_bind (safe_store (h.mono (Nat.min_le_right _ _)) _) fun _ => safe_pure _

/-- The pixels of the rectangle fit into the range that was checked. -/
theorem safe_sysGraphicsReadFramebuffer (dst rect : UInt64) :
    Safe (sysGraphicsReadFramebuffer dst rect) := by
  refine safe_guard ?_
  refine safe_range safe_abort fun _ => ?_
  refine safe_call_bind fun tmp => ?_
  refine safe_guard ?_
  refine safe_call_bind fun a => ?_
  refine safe_branch safe_call_pure ?_
  exact safe_bind (safe_copyToUser _ _ _) fun _ => safe_call_pure

/-- The pixels of the rectangle are read from a range that was checked. -/
theorem safe_sysGraphicsBlit (src rect flags : UInt64) : Safe (sysGraphicsBlit src rect flags) := by
  refine safe_guard ?_
  refine safe_range safe_abort fun _ => ?_
  refine safe_call_bind fun tmp => ?_
  refine safe_guard ?_
  exact safe_bind_option (safe_copyFromUser _ _) (safe_call_bind fun _ => safe_abort) fun pixels =>
    safe_call_bind fun _ => safe_call_pure

/-- The text is copied as a string. -/
theorem safe_sysGraphicsDrawText (place textPtr color : UInt64) :
    Safe (sysGraphicsDrawText place textPtr color) := by
  refine safe_guard ?_
  exact safe_bind_option (safe_copyString _ _) (safe_pure _) fun text => safe_callStatus _ _ _

theorem safe_sysAudioPlayPcm : Safe (sysAudioPlayPcm ptr) := by
  refine safe_checkedPointer (safe_pure _) fun _ => ?_
  refine safe_bind_option (safe_copyFromUser _ _) (safe_pure _) fun request => ?_
  refine safe_guard ?_
  refine safe_range (safe_pure _) fun _ => ?_
  refine safe_call_bind fun pcm => ?_
  refine safe_guard ?_
  exact safe_bind_option (safe_copyFromUser _ _) (safe_call_pure) fun bytes =>
    safe_call_bind fun _ => safe_call_pure

/-- The body goes into a buffer checked for the size given. -/
theorem safe_sysHttpGetUrl (urlPtr buffer size : UInt64) :
    Safe (sysHttpGetUrl urlPtr buffer size) := by
  refine safe_guard ?_
  refine safe_bind_option (safe_copyString _ _) safe_abort fun url => ?_
  refine safe_range safe_abort fun _ => ?_
  refine safe_call_bind fun a => ?_
  refine safe_guard ?_
  exact safe_replyOrAbort _ _ _ _

theorem safe_sysNetPing : Safe (sysNetPing ptr) :=
  safe_ite (fun _ => safe_pure _) fun _ => safe_withUserText (fun _ => safe_callStatus _ _ _) _ _

/-- The host name is copied in, the address copied out. -/
theorem safe_sysNetResolve (hostPtr out size : UInt64) : Safe (sysNetResolve hostPtr out size) := by
  refine safe_guard ?_
  refine safe_withUserText (fun host => ?_) _ _
  refine safe_range safe_abort fun _ => ?_
  refine safe_call_bind fun a => ?_
  refine safe_guard ?_
  exact safe_replyOrAbort _ _ _ _

/-- Rules are copied in and out. -/
theorem safe_sysFirewallCtl (op rcx rdx : UInt64) : Safe (sysFirewallCtl op rcx rdx) := by
  unfold sysFirewallCtl
  refine safe_branch (safe_call_bind fun _ => safe_callDone _ _ _) ?_
  refine safe_branch (safe_callResult _ _ _) ?_
  refine safe_branch ?_ ?_
  · refine safe_range (safe_pure _) fun _ => ?_
    exact safe_bind_option (safe_copyFromUser _ _) (safe_pure _) fun rule =>
      safe_call_bind fun _ => safe_call_pure
  refine safe_branch (safe_call_bind fun _ => safe_call_pure) ?_
  refine safe_branch ?_ ?_
  · refine safe_call_bind fun a => ?_
    refine safe_range (safe_pure _) fun _ => ?_
    exact safe_bind_pure (safe_copyToUser _ _ _)
  refine safe_branch (safe_call_bind fun _ => safe_call_pure) ?_
  refine safe_ite (fun _ => ?_) fun _ => safe_pure _
  refine safe_call_bind fun inbound => safe_call_bind fun outbound => ?_
  refine safe_range (safe_pure _) fun _ => ?_
  exact safe_bind_pure (safe_copyToUser _ _ _)

theorem safe_sysEfsCtl (op pathPtr : UInt64) : Safe (sysEfsCtl op pathPtr) := by
  refine safe_withUserText (fun path => ?_) _ _
  refine safe_branch (safe_callStatus _ _ _) ?_
  refine safe_branch (safe_callStatus _ _ _) ?_
  exact safe_branch (safe_callResult _ _ _) (safe_pure _)

theorem safe_sysRequestR0 : Safe sysRequestR0 := by
  refine safe_bind (safe_reads _) fun w => ?_
  refine safe_guard ?_
  exact safe_guard (safe_pure _)

theorem safe_sysRequestR2 (reasonPtr : UInt64) : Safe (sysRequestR2 reasonPtr) := by
  refine safe_bind (safe_reads _) fun level => ?_
  refine safe_guard ?_
  have hask (reason : List UInt8) : Safe (do
      let program ← Traced.reads SysWorld.programPath
      let a ← call .graphicsRequestUacElevation [execPrivR2.toUInt64] [program, reason]
      if a.isTrue then execGrantCurrentPrivilege else pure fail) := by
    refine safe_bind (safe_reads _) fun program => ?_
    refine safe_call_bind fun a => ?_
    refine safe_ite (fun _ => ?_) fun _ => safe_pure _
    exact safe_call_bind fun _ => safe_bind (safe_modifies _) fun _ => safe_pure _
  exact safe_branch (hask _) (safe_withUserText hask _ _)

/-- Program and reason are copied as strings. -/
theorem safe_sysUacElevate (programPtr reasonPtr level : UInt64) :
    Safe (sysUacElevate programPtr reasonPtr level) :=
  safe_withUserText (fun _ => safe_withUserText (fun _ => safe_callStatus _ _ _) _ _) _ _

theorem safe_sysDriverLoad (pathPtr : UInt64) : Safe (sysDriverLoad pathPtr) := by
  refine safe_bind (safe_reads _) fun level => ?_
  refine safe_guard ?_
  exact safe_bind_option (safe_resolvePath _) (safe_pure _) fun path => safe_callStatus _ _ _

theorem safe_sysDriverUnload (namePtr : UInt64) : Safe (sysDriverUnload namePtr) := by
  refine safe_bind (safe_reads _) fun level => ?_
  exact safe_guard (safe_withUserText (fun _ => safe_callStatus _ _ _) _ _)

theorem safe_sysProcessTerminate (pid : UInt64) : Safe (sysProcessTerminate pid) := by
  refine safe_bind (safe_signalTargetAllowed _) fun allowed => ?_
  exact safe_guard (safe_callDone _ _ _)

theorem safe_sysClipboardSet : Safe (sysClipboardSet ptr) := by
  refine safe_guard ?_
  exact safe_bind_option (safe_copyString _ _) (safe_pure _) fun text => safe_callDone _ _ _

/-- Title and body are copied as strings. -/
theorem safe_sysNotificationPost (titlePtr bodyPtr : UInt64) :
    Safe (sysNotificationPost titlePtr bodyPtr) :=
  safe_withUserText (fun _ => safe_withUserText (fun _ => safe_callDone _ _ _) _ _) _ _

/-- The two descriptors are copied out. -/
theorem safe_sysPipe : Safe (sysPipe ptr) := by
  refine safe_guard ?_
  refine safe_call_bind fun a => ?_
  refine safe_guard ?_
  exact safe_bind_pure (safe_copyToUser _ _ _)

/-- The identifiers of a segment are values; no memory of the process is touched. -/
theorem safe_sysShmCall (op rcx rdx : UInt64) : Safe (sysShmCall op rcx rdx) := by
  unfold sysShmCall
  refine safe_branch (safe_callResult _ _ _) ?_
  refine safe_branch (safe_callResult _ _ _) ?_
  refine safe_branch (safe_callResult _ _ _) ?_
  exact safe_branch (safe_callResult _ _ _) (safe_pure _)

theorem safe_sysGetpgid (pid : UInt64) : Safe (sysGetpgid pid) :=
  safe_ite (fun _ => safe_call_bind fun _ => safe_callResult _ _ _) fun _ => safe_callResult _ _ _

end Monios.Analysis
