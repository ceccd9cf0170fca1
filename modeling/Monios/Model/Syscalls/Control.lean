import Monios.Library.Traced
import Monios.Model.Installer
import Monios.Model.Memtest
import Monios.Model.Path
import Monios.Model.PeImage

/-!
# The memory of a process behind a system call

The state that the system calls of `kernel/syscall/syscall.c` work on while a process is active, and
the functions of `kernel/syscall/app_memory.c` by which they reach the memory of the process.
`exec_active()` is true throughout; the branches for calls of the kernel itself are left out.

A system call logs what it does: each access to memory through a pointer of the process, and each
call of another part of the kernel, with its numbers and its texts.  What the other parts answer,
and what they do to the memory meanwhile, is given by an oracle, one answer for each call in its
turn.
-/

set_option autoImplicit false

namespace Monios.Model.Syscalls

open Monios.Library

inductive KernelFunction
  | timerTicks | logWrite | terminalSetProcessConsoleTitle | kernelRequestGraphicsMode | processOutput | keyboardReadChar
  | fileRootEntryCount | fileRead | fileWrite | fileDelete | fileMkdir | fileRmdir | fileListDir | fileExists | fileSize
  | fileIsDir | fileBackupBegin | fileBackupAppend | fileBackupEnd | fileBackupRestoreBegin | fileBackupReadImg
  | currentFsIsFat32 | fat32Ready | ataReadSectors | ataWriteSectors | efsEncryptFile | efsDecryptFile | efsIsEncrypted
  | mouseGetSnapshot | keyboardPollEvent | cmosReadTime | systemStatus | execAbortFromException
  | sysExit | sysFork | sysWaitpid | sysGetpid | sysGetppid | sysSchedYield | pcbSetPriority | pcbSnapshot | pcbProcessAbort
  | pcbCurrentPid | pcbSetpgid | pcbGetpgid | pcbSetsid | processStats | kmalloc | kfree
  | httpGetUrl | netPing | netResolveIpv4 | ntpSyncAll
  | graphicsUserFillRect | graphicsUserDrawText | graphicsUserPresent | graphicsFramebufferWidth | graphicsFramebufferHeight
  | graphicsUserReadFramebuffer | graphicsUserBlit | graphicsOpenCube3dWindow | graphicsOpenNotepadWindow
  | graphicsClipboardSetText | graphicsClipboardGetText | graphicsClipboardHistoryPack | graphicsClipboardHistoryCount
  | graphicsNotificationPost | graphicsThemeSet | graphicsWallpaperSet | graphicsDisplayModeSet | graphicsRequestUacElevation
  | uacRequestElevation | execGrantCurrentPrivilege
  | audioPlayPcm | audioPlayerCtl | audioRecordCtl | memtestCtl | videoCtl | printerCtl | printerPreviewUsed
  | lptInit | lptReset | lptStatus | lptWrite | lptSpoolRead
  | socketUdpOpen | socketClose | socketSendto | socketRecvfrom | socketTcpOpen | socketTcpConnect | socketTcpSend
  | socketTcpRecv | socketTcpHasData | socketTcpIsConnected | socketTcpListen | socketTcpAccept
  | futexWait | futexWake | futexWaiterCount | ipcPortCreate | ipcSendText | ipcRecvText
  | signalSend | signalPending | signalTakePending | signalClear
  | registryGetCopy | registrySet | registryDefaultAppForExtension | registrySetDefaultApp | shellDeferExecPath
  | installerBootMediaPresent | installerRequestReboot | installerListTargets | installerWriteFileToDisk
  | installerWriteBufferToDisk | installerWriteTargetFile | installerCopyFileToTarget | installerReadMediaFile
  | installerMediaFileSize
  | driverManagerLoad | driverManagerUnload | driverManagerSnapshot | powerHibernateToDisk
  | fsCacheInfo | fsCacheFlush | fsCacheEnable | fsCacheSetSlots | fsCacheDrop
  | zcompInfo | zcompReclaimPass | zcompEnable | zcompDrop | ioschedInfo | ioschedSetAlgorithm | ioschedRun | ioschedGetAlgorithm
  | gpuAccelInfo | gpuAccelFlush | gpuAccelPresent | gpuAccelSetDouble | gpuAccelCursorSet
  | firewallSetEnabled | firewallEnabled | firewallAddRule | firewallRemoveRule | firewallListRules | firewallSaveRules
  | firewallDroppedInbound | firewallDroppedOutbound | auditLog
  | usbMscCount | usbMscMountAll | usbMscEject | usbMscGet | usbPrinterCount | usbPrinterPollStatus | usbPrinterWrite
  | gdbHwBpInsert | gdbHwBpClear | gdbSetStepPending | gdbRegsSnapshot | gdbStatus | profileCtl
  | profilerStart | profilerStop | profilerCopyToUser | memstatsFill | execRunCapture
  | pipeCreate | shmCreate | shmAttach | shmDetach | shmDestroy
deriving DecidableEq

structure KernelCall where
  function : KernelFunction
  args : List UInt64
  data : List (List UInt8)
deriving DecidableEq

structure Answer where
  value : Int := 0
  data : List UInt8 := []

/-- A function that returns `bool` returns true. -/
def Answer.isTrue (a : Answer) : Bool := a.value != 0

inductive SysEvent
  /-- read `n` bytes through a pointer of the process -/
  | load (a : UInt64) (n : Nat)
  /-- write `n` bytes through a pointer of the process -/
  | store (a : UInt64) (n : Nat)
  | call (c : KernelCall)
deriving DecidableEq

structure SyscallFrame where
  rax : UInt64
  rbx : UInt64 := 0
  rcx : UInt64 := 0
  rdx : UInt64 := 0
  rsi : UInt64 := 0
  rdi : UInt64 := 0

/-- A slot of `g_sw_bp`: the address and the byte that was there. -/
structure SwBreakpoint where
  addr : UInt64
  savedByte : UInt8

structure SysWorld where
  memory : Memory
  /-- `g_sw_bp`; a slot that is not in use is `none` -/
  swBp : List (Option SwBreakpoint)
  privilegeLevel : UInt32
  imageFlags : UInt32
  cwd : CString
  programPath : List UInt8
  home : Option (List UInt8)
  oracle : Nat → KernelCall → Answer × (Memory → Memory)
  calls : Nat
  /-- `g_memtest` and `g_frame_bitmap` -/
  memtest : Memtest.Session := {}
  frameBits : Frame.Bits := fun _ => false

abbrev Sys (α : Type) : Type := Traced SysWorld SysEvent α

/-! ## Basic steps -/

/-- The `n` bytes at an address. -/
def bytesAt (m : Memory) (a : UInt64) (n : Nat) : List UInt8 :=
  (List.range n).map fun i => m (a + UInt64.ofNat i)

def load (a : UInt64) (n : Nat) : Sys (List UInt8) := do
  Traced.emit (.load a n)
  Traced.reads fun w => bytesAt w.memory a n

def fitTo (n : Nat) (bytes : List UInt8) : List UInt8 :=
  (bytes ++ List.replicate (n - bytes.length) 0).take n

def store (a : UInt64) (n : Nat) (bytes : List UInt8) : Sys Unit := do
  Traced.emit (.store a n)
  Traced.modifies fun w => { w with memory := writeMem w.memory a (fitTo n bytes) }

def call (f : KernelFunction) (args : List UInt64) (data : List (List UInt8)) : Sys Answer := do
  let c : KernelCall := ⟨f, args, data⟩
  Traced.emit (.call c)
  let answer ← Traced.reads fun w => (w.oracle w.calls c).1
  Traced.modifies fun w => { w with memory := (w.oracle w.calls c).2 w.memory, calls := w.calls + 1 }
  pure answer

/-- `(uint64_t) -1` -/
def fail : UInt64 := 0xFFFFFFFFFFFFFFFF

/-- A signed result in `rax`. -/
def toRax (v : Int) : UInt64 := UInt64.ofNat (v % 2 ^ 64).toNat

/-- `ok ? 0 : (uint64_t) -1` -/
def status (ok : Bool) : UInt64 := if ok then 0 else fail

/-- `exec_abort_from_exception(13, 0); return (uint64_t) -1;` -/
def abort : Sys UInt64 := do
  let _ ← call .execAbortFromException [13, 0] []
  pure fail

/-! ## `app_memory.c` -/

def execUserRangeValid (ptr size : UInt64) : Bool :=
  if size = 0 then true
  else if ptr = 0 then false
  else if ptr < execUserAddressMin ∨ ptr ≥ execUserAddressMax then false
  else if ptr + size < ptr ∨ ptr + size > execUserAddressMax then false
  else true

def appMemoryUserRange (ptr size : UInt64) : Bool :=
  if size = 0 then true
  else if ptr = 0 then false
  else execUserRangeValid ptr size

def appMemoryCopyFromUser (src size : UInt64) : Sys (Option (List UInt8)) :=
  if size = 0 then pure (some [])
  else if !appMemoryUserRange src size then pure none
  else do
    let bytes ← load src size.toNat
    pure (some bytes)

def appMemoryCopyToUser (dst : UInt64) (bytes : List UInt8) (size : UInt64) : Sys Bool :=
  if size = 0 then pure true
  else if !appMemoryUserRange dst size then pure false
  else do
    store dst size.toNat bytes
    pure true

/-- The rest of a string from `index` on, of which at most `n` bytes are looked at. -/
def copyStringFrom (src : UInt64) : Nat → Nat → List UInt8 → Sys (Option (List UInt8))
  | 0, _, _ => pure none
  | n + 1, index, copied =>
    if src.toNat > 0xFFFFFFFFFFFFFFFF - index ∨ !appMemoryUserRange (src + UInt64.ofNat index) 1 then pure none
    else do
      let byte ← load (src + UInt64.ofNat index) 1
      if byte = [0] then pure (some copied) else copyStringFrom src n (index + 1) (copied ++ byte)

def toCString (bytes : List UInt8) : CString := ⟨bytes.filter (· != 0), by simp⟩

def appMemoryCopyStringFromUser (dstSize : Nat) (src : UInt64) : Sys (Option CString) :=
  if src = 0 then pure none
  else do
    let bytes ← copyStringFrom src dstSize 0 []
    pure (bytes.map toCString)

/-! ## Paths -/

def execCurrentCwd (w : SysWorld) : CString :=
  if w.cwd.val.isEmpty then ⟨[0x43, 0x3A, 0x5C], by decide⟩ else w.cwd

def syscallResolvePath (path : UInt64) : Sys (Option (List UInt8)) :=
  if path = 0 then pure none
  else do
    match ← appMemoryCopyStringFromUser pathMaxLen path with
    | none => pure none
    | some userPath =>
      let cwd ← Traced.reads execCurrentCwd
      pure (pathResolve cwd userPath pathMaxLen)

/-- `strcasecmp(a, b) == 0` -/
def strcasecmpEq (a b : List UInt8) : Bool := a.map lowerByte == b.map lowerByte

def syscallPathPrefixCi (path start : List UInt8) (n : Nat) : Bool :=
  (path.take n).map lowerByte == (start.take n).map lowerByte

def syscallPathWriteAllowed (w : SysWorld) (path : List UInt8) : Bool :=
  if w.privilegeLevel ≤ execPrivR2 then true
  else
    match w.home with
    | none => false
    | some home =>
      home.length > 0 && path.length > home.length && !strcasecmpEq path home &&
        syscallPathPrefixCi path home home.length && path[home.length]? == some pathSeparator

/-- `UI_AUTH_PATH` and `UI_TRUST_ROOT_BUNDLE_PATH` -/
def uiAuthPath : List UInt8 := ascii "C:\\Monios\\System\\Config\\pwd.txt"

def uiTrustRootBundlePath : List UInt8 := ascii "C:\\Monios\\System\\Security\\trust.bin"

def syscallPathReadAllowed (w : SysWorld) (path : List UInt8) : Bool :=
  if w.privilegeLevel ≤ execPrivR2 then true
  else !strcasecmpEq path uiAuthPath && !strcasecmpEq path uiTrustRootBundlePath

/-! ## Requests -/

def field16 (request : List UInt8) (o : Nat) : UInt64 := UInt64.ofNat (readU16 request o)

def field32 (request : List UInt8) (o : Nat) : UInt64 := UInt64.ofNat (readU32 request o)

def field64 (request : List UInt8) (o : Nat) : UInt64 := UInt64.ofNat (readU64 request o)

def setField (request : List UInt8) (o : Nat) (bytes : List UInt8) : List UInt8 :=
  request.take o ++ bytes ++ request.drop (o + bytes.length)

def int32Bytes (v : Int) : List UInt8 := le32 (v % 2 ^ 32).toNat

def uint64Bytes (v : UInt64) : List UInt8 := le32 v.toNat ++ le32 (v.toNat / 2 ^ 32)

/-- `syscall_copy_to_user_or_abort`, followed by the result of the call. -/
def replyOrAbort (dst : UInt64) (bytes : List UInt8) (size result : UInt64) : Sys UInt64 := do
  let copied ← appMemoryCopyToUser dst bytes size
  if copied then pure result else abort

/-- The start of the calls that take a request: `NULL` and short ones fail, the rest is copied. -/
def withRequest (ptr size requestSize : UInt64) (handle : List UInt8 → Sys UInt64) : Sys UInt64 :=
  if ptr = 0 ∨ size < requestSize then pure fail
  else do
    match ← appMemoryCopyFromUser ptr requestSize with
    | none => pure fail
    | some request => handle request

def syscallFixedStringTerminated (text : List UInt8) : Bool := text.contains 0

end Monios.Model.Syscalls

/-!
# Control calls

The functions that the system calls hand their registers to as they are: `fs_cache_ctl`,
`zcomp_ctl`, `iosched_ctl`, `gpu_accel_ctl`, `video_ctl`, `lpt_ctl`, `usb_mount_ctl`, `debug_ctl`,
`profile_ctl`, `sys_waitpid`, and the handlers of requests to the audio, printer and memory-test
services.
-/

namespace Monios.Model.Syscalls

open Monios.Library

def callResult (f : KernelFunction) (args : List UInt64) (data : List (List UInt8)) : Sys UInt64 :=
  do
  let a ← call f args data
  pure (toRax a.value)

def callDone (f : KernelFunction) (args : List UInt64) (data : List (List UInt8)) : Sys UInt64 := do
  let _ ← call f args data
  pure 0

/-- `f(..) ? 0 : (uint64_t) -1` -/
def callStatus (f : KernelFunction) (args : List UInt64) (data : List (List UInt8)) : Sys UInt64 :=
  do
  let a ← call f args data
  pure (status a.isTrue)

/-! ## Status commands -/

/-- The status command of the caches, the scheduler and the GPU: a record is written to the address
it is given. -/
def ctlStatus (f : KernelFunction) (out : UInt64) (size : Nat) : Sys UInt64 := do
  let info ← call f [] []
  if out ≠ 0 then do
    store out size info.data
    pure 0
  else pure 0

def fsCacheCtl (cmd arg1 : UInt64) : Sys UInt64 :=
  if cmd = 0 then ctlStatus .fsCacheInfo arg1 112
  else if cmd = 1 then callResult .fsCacheFlush [] []
  else if cmd = 2 then callResult .fsCacheEnable [arg1] []
  else if cmd = 3 then callResult .fsCacheSetSlots [arg1] []
  else if cmd = 4 then callResult .fsCacheDrop [] []
  else pure fail

def zcompCtl (cmd arg1 : UInt64) : Sys UInt64 :=
  if cmd = 0 then ctlStatus .zcompInfo arg1 120
  else if cmd = 1 then callResult .zcompReclaimPass [] []
  else if cmd = 2 then callDone .zcompEnable [arg1] []
  else if cmd = 3 then callDone .zcompDrop [] []
  else pure fail

def ioschedCtl (cmd arg1 : UInt64) : Sys UInt64 :=
  if cmd = 0 then ctlStatus .ioschedInfo arg1 112
  else if cmd = 1 then callDone .ioschedSetAlgorithm [arg1] []
  else if cmd = 2 then callResult .ioschedRun [] []
  else if cmd = 3 then callResult .ioschedGetAlgorithm [] []
  else pure fail

def gpuAccelCtl (cmd arg1 arg2 : UInt64) : Sys UInt64 :=
  if cmd = 0 then ctlStatus .gpuAccelInfo arg1 104
  else if cmd = 1 then callDone .gpuAccelFlush [] []
  else if cmd = 2 then callDone .gpuAccelPresent [] []
  else if cmd = 3 then callDone .gpuAccelSetDouble [arg1] []
  else if cmd = 4 then callDone .gpuAccelCursorSet [arg1 &&& 0xFFFF, arg2 &&& 0xFFFF, (arg2 >>> 32) &&& 1] []
  else pure fail

/-! ## Debugging -/

def gdbMaxHwBp : Nat := 4

def gdbFreeSlot (slots : List (Option SwBreakpoint)) : Option Nat := slots.findIdx? Option.isNone

def SwBreakpoint.isFor (addr : UInt64) (slot : Option SwBreakpoint) : Bool :=
  slot.any (·.addr == addr)

def gdbSwBpInsert (addr : UInt64) : Sys UInt64 := do
  let slots ← Traced.reads SysWorld.swBp
  match slots.findIdx? (SwBreakpoint.isFor addr) with
  | some i => pure (UInt64.ofNat i)
  | none =>
    match gdbFreeSlot slots with
    | none => pure fail
    | some i => do
        let saved ← load addr 1
        store addr 1 [0xCC]
        Traced.modifies fun w => { w with swBp := w.swBp.set i (some ⟨addr, saved.headD 0⟩) }
        pure (UInt64.ofNat i)

/-- `gdb_sw_bp_remove`, which looks at the first `GDB_MAX_HW_BP` slots only. -/
def gdbSwBpRemove (addr : UInt64) : Sys UInt64 := do
  let slots ← Traced.reads SysWorld.swBp
  match (slots.take gdbMaxHwBp).findIdx? (SwBreakpoint.isFor addr) with
  | none => pure fail
  | some i => do
      store addr 1 [((slots[i]?.join).map SwBreakpoint.savedByte).getD 0]
      Traced.modifies fun w => { w with swBp := w.swBp.set i none }
      pure 0

/-- The loop of `DBG_SWBP_CLEAR_ALL` -/
def gdbClearAll : List (Option SwBreakpoint) → Sys Unit
  | [] => pure ()
  | none :: slots => gdbClearAll slots
  | some bp :: slots => do
      store bp.addr 1 [bp.savedByte]
      gdbClearAll slots

/-- The loops of `DBG_READ_MEM` and `DBG_WRITE_MEM`: byte by byte, from one address to the other. -/
def gdbCopy (dst src : UInt64) : List Nat → Sys Unit
  | [] => pure ()
  | i :: is => do
      let byte ← load (src + UInt64.ofNat i) 1
      store (dst + UInt64.ofNat i) 1 byte
      gdbCopy dst src is

/-- The pointer and the length at an address, as `DBG_READ_MEM` and `DBG_WRITE_MEM` take them. -/
def gdbTransfer (arg2 : UInt64) (copy : UInt64 → List Nat → Sys Unit) : Sys UInt64 :=
  if arg2 = 0 then pure fail
  else do
    let request ← load arg2 16
    let len := min (field64 request 8).toUInt32.toNat 4096
    copy (field64 request 0) (List.range len)
    pure (UInt64.ofNat len)

def debugCtl (op arg1 arg2 : UInt64) : Sys UInt64 :=
  if op = 0 then gdbSwBpInsert arg1
  else if op = 1 then gdbSwBpRemove arg1
  else if op = 2 then do
    let slots ← Traced.reads SysWorld.swBp
    gdbClearAll slots
    Traced.modifies fun w => { w with swBp := w.swBp.map fun _ => none }
    pure (UInt64.ofNat (slots.countP Option.isSome))
  else if op = 3 then callResult .gdbHwBpInsert [arg1, arg2.toUInt32.toUInt64] []
  else if op = 4 then callResult .gdbHwBpClear [arg1] []
  else if op = 5 then callDone .gdbSetStepPending [1] []
  else if op = 6 then callDone .gdbSetStepPending [0] []
  else if op = 7 then
    if arg1 = 0 then pure fail
    else do
      let regs ← call .gdbRegsSnapshot [] []
      store arg1 192 regs.data
      pure 24
  else if op = 8 then gdbTransfer arg2 fun buf => gdbCopy buf arg1
  else if op = 9 then gdbTransfer arg2 fun buf => gdbCopy arg1 buf
  else if op = 10 then callResult .gdbStatus [] []
  else pure fail

/-! ## Devices -/

def usbMountCtl (sub arg1 arg2 : UInt64) : Sys UInt64 :=
  if sub = 0 then callResult .usbMscCount [] []
  else if sub = 1 then callResult .usbMscMountAll [] []
  else if sub = 2 then callStatus .usbMscEject [arg1 &&& 0xFF] []
  else if sub = 3 then callResult .usbMscGet [arg1.toUInt32.toUInt64] []
  else if sub = 4 then callResult .usbPrinterCount [] []
  else if sub = 5 then callResult .usbPrinterPollStatus [arg1.toUInt32.toUInt64] []
  else if sub = 6 then
    if arg2 = 0 then pure fail
    else do
      let request ← load arg2 16
      -- the data is counted, not read
      callResult .usbPrinterWrite [arg1.toUInt32.toUInt64, field64 request 0, field32 request 8] []
  else pure fail

/-- The loop of `LPT_CTL_WRITE`, in pieces of 256 bytes. -/
def lptWriteLoop (src : UInt64) : Nat → Nat → Nat → Sys UInt64
  | 0, _, _ => pure 0
  | rounds + 1, off, len =>
    if len ≤ off then pure 0
    else do
      let chunk := min (len - off) 256
      match ← appMemoryCopyFromUser (src + UInt64.ofNat off) (UInt64.ofNat chunk) with
      | none => pure fail
      | some bytes => do
          let _ ← call .lptWrite [] [bytes]
          lptWriteLoop src rounds (off + chunk) len

def lptCtl (cmd rcx rdx : UInt64) : Sys UInt64 :=
  if cmd = 0 then callDone .lptInit [] []
  else if cmd = 3 then callDone .lptReset [] []
  else if cmd = 2 then callResult .lptStatus [] []
  else if cmd = 1 then
    if rdx = 0 then pure fail else lptWriteLoop rcx rdx.toNat 0 rdx.toNat
  else if cmd = 4 then do
    let cap := min rdx.toUInt32.toNat 256
    let spool ← call .lptSpoolRead [UInt64.ofNat cap] []
    let n := min spool.data.length cap
    let copied ← appMemoryCopyToUser rcx spool.data (UInt64.ofNat n)
    pure (if copied then UInt64.ofNat n else fail)
  else pure fail

def videoCtl (arg0 : UInt64) : Sys UInt64 :=
  if arg0 = 0 then pure fail
  else do
    match ← appMemoryCopyFromUser arg0 92 with
    | none => pure fail
    | some request => do
        let reply ← call .videoCtl [field32 request 0, field32 request 4, field32 request 8, field32 request 12] []
        let copied ← appMemoryCopyToUser arg0 (setField request 20 reply.data) 92
        pure (status copied)

/-- `sys_waitpid`; the answer says whether a child is taken off the table, and which exit code it
left. -/
def sysWaitpid (pid exitCode : UInt64) : Sys UInt64 := do
  let reaped ← call .sysWaitpid [pid.toUInt32.toUInt64] []
  if 0 ≤ reaped.value ∧ exitCode ≠ 0 then do
    store exitCode 4 reaped.data
    pure (toRax reaped.value)
  else pure (toRax reaped.value)

/-! ## Requests that are handed on -/

def passRequest (ptr size : UInt64) (service : List UInt8 → Sys (List UInt8 × UInt64)) :
    Sys UInt64 :=
  if ptr = 0 ∨ !appMemoryUserRange ptr size then pure fail
  else do
    match ← appMemoryCopyFromUser ptr size with
    | none => pure fail
    | some request => do
        let (reply, result) ← service request
        replyOrAbort ptr reply size result

def sysAudioPlayerCtl (ptr : UInt64) : Sys UInt64 :=
  passRequest ptr 20 fun request => do
    let a ← call .audioPlayerCtl [field32 request 0, field32 request 4] []
    pure (setField request 4 a.data, if a.value = 0 then 0 else fail)

/-- The writes of `memtest_range` to a page.  They go through a pointer of the process when the
window starts at the address that a process has given. -/
def testPage (s : Memtest.Session) (page : UInt64) : Sys Unit :=
  let n := Memtest.testedBytes s.rangeEnd page
  let bytes := Memtest.patternBytes s.mode page n
  if s.supplied then store page n bytes
  else Traced.modifies fun w => { w with memory := writeMem w.memory page bytes }

def testPages (s : Memtest.Session) : List UInt64 → Sys Unit
  | [] => pure ()
  | page :: pages => do
    testPage s page
    testPages s pages

/-- The end of `memtest_ctl`: the result and the snapshot, with its counters and times, are put into
the request. -/
def memtestReply (request : List UInt8) (result : Int) : Sys (List UInt8 × UInt64) := do
  let snapshot ← call .memtestCtl [] []
  pure (setField request 24 (int32Bytes result ++ le32 1 ++ snapshot.data), if result = 0 then 0 else fail)

def memtestCtl (request : List UInt8) : Sys (List UInt8 × UInt64) :=
  if field32 request 0 = 1 then do
    let session ← Traced.reads SysWorld.memtest
    let bits ← Traced.reads SysWorld.frameBits
    let r := Memtest.memtestStart bits (field32 request 4) (field64 request 8) (field64 request 16) session
    Traced.modifies fun w => { w with memtest := r.2 }
    memtestReply (setField request 8 (uint64Bytes r.2.rangeStart ++ uint64Bytes r.2.rangeEnd)) r.1
  else if field32 request 0 = 2 then do
    Traced.modifies fun w => { w with memtest := Memtest.memtestCancel w.memtest }
    memtestReply request 0
  else if field32 request 0 = 3 then do
    let session ← Traced.reads SysWorld.memtest
    let bits ← Traced.reads SysWorld.frameBits
    testPages session (Memtest.memtestStep bits session).1
    Traced.modifies fun w => { w with memtest := (Memtest.memtestStep bits session).2 }
    memtestReply request 0
  else if field32 request 0 = 4 then memtestReply request 0
  else
    -- the request keeps the result that the process wrote
    pure (setField request 28 (le32 0), if field32 request 24 = 0 then 0 else fail)

def sysMemtestCtl (ptr : UInt64) : Sys UInt64 := passRequest ptr 896 memtestCtl

def printerPreviewBytes : Nat := 65536

def printerPreviewSubmit (data len : UInt64) : Sys Int :=
  if data = 0 ∨ len = 0 then pure (-1)
  else do
    let used ← call .printerPreviewUsed [] []
    let n := min len.toNat (printerPreviewBytes - used.value.toNat)
    let bytes ← load data n
    let _ ← call .printerCtl [7] [bytes]
    pure n

def printerCtl (request : List UInt8) : Sys Int :=
  if field32 request 0 = 7 then printerPreviewSubmit (field64 request 48) (field32 request 56)
  else do
    let a ← call .printerCtl [field32 request 0, field32 request 36, field32 request 40, field32 request 44]
      [slice request 4 32]
    pure a.value

def sysPrinterCtl (ptr : UInt64) : Sys UInt64 :=
  passRequest ptr 64 fun request => do
    let result ← printerCtl request
    pure (setField request 60 (int32Bytes result), if result = 0 then 0 else fail)

def sysAudioRecCtl (ptr : UInt64) : Sys UInt64 :=
  if ptr = 0 ∨ !appMemoryUserRange ptr 48 then pure fail
  else do
    match ← appMemoryCopyFromUser ptr 48 with
    | none => pure fail
    | some request =>
      if field32 request 0 = 2 then do
        let cap := min (field32 request 20).toNat 8192
        let a ← call .audioRecordCtl [2, UInt64.ofNat cap] []
        -- a recorder that is not running leaves the number that the process wrote
        let copied := if a.value = 0 then UInt64.ofNat (min a.data.length cap) else field32 request 24
        if !appMemoryUserRange (field64 request 32) copied then pure fail
        else do
          let _ ← appMemoryCopyToUser (field64 request 32) a.data copied
          let reply := setField (setField request 20 (le32 cap)) 24 (le32 copied.toNat)
          replyOrAbort ptr reply 48 0
      else do
        let a ← call .audioRecordCtl [field32 request 0] []
        replyOrAbort ptr (setField request 4 a.data) 48 0

end Monios.Model.Syscalls
