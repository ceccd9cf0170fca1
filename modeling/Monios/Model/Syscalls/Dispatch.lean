import Monios.Model.Syscalls.Requests

/-!
# The system calls

`syscall_interrupt_dispatch` of `kernel/syscall/syscall.c`: every system call with its number.
-/

set_option autoImplicit false

namespace Monios.Model.Syscalls

open Monios.Library

/-! ## Texts and records -/

/-- The calls that hand a text of the process to a service; they abort when it cannot be copied. -/
def withUserText (max : Nat) (ptr : UInt64) (handle : List UInt8 → Sys UInt64) : Sys UInt64 := do
  match ← appMemoryCopyStringFromUser max ptr with
  | none => abort
  | some text => handle text.val

def fillRecord (f : KernelFunction) (ptr size : UInt64) : Sys UInt64 := do
  let a ← call f [] []
  let copied ← appMemoryCopyToUser ptr a.data size
  if copied then pure size else abort

def sysLogString (ptr : UInt64) : Sys UInt64 :=
  if ptr = 0 then pure 0 else withUserText 128 ptr fun text => callDone .logWrite [] [text]

def sysConsoleSetTitle (ptr : UInt64) : Sys UInt64 :=
  if ptr = 0 then pure fail
  else
    withUserText 256 ptr fun title => do
      let _ ← call .pcbCurrentPid [] []
      callStatus .terminalSetProcessConsoleTitle [] [title]

def sysGetCwd (ptr size : UInt64) : Sys UInt64 := do
  let cwd ← Traced.reads execCurrentCwd
  let length := UInt64.ofNat cwd.val.length
  if ptr = 0 ∨ size ≤ length ∨ !appMemoryUserRange ptr size then pure fail
  else do
    let copied ← appMemoryCopyToUser ptr cwd.val (length + 1)
    if copied then pure length else abort

/-- `SYS_MOUSE_GET_STATE` and `SYS_DRIVER_QUERY`, of which the second may fail. -/
def sysSnapshot (f : KernelFunction) (fails : Answer → Bool) (ptr size recordSize : UInt64) :
    Sys UInt64 :=
  if ptr = 0 ∨ size < recordSize ∨ !appMemoryUserRange ptr recordSize then pure fail
  else do
    let a ← call f [] []
    if fails a then pure fail
    else do
      let copied ← appMemoryCopyToUser ptr a.data recordSize
      if copied then pure recordSize else abort

def syscallSystemStatus (ptr size : UInt64) : Sys UInt64 :=
  if ptr = 0 ∨ size < 380 then pure fail
  else if !appMemoryUserRange ptr 380 then abort
  else fillRecord .systemStatus ptr 380

/-- `SYS_PROCESS_ENUM` and `SYS_PROCESS_STATS` -/
def sysProcessRecord (f : KernelFunction) (index ptr size : UInt64) : Sys UInt64 := do
  let a ← call f [index.toUInt32.toUInt64] []
  if !a.isTrue then pure fail
  else if !appMemoryUserRange ptr size then abort
  else do
    let _ ← appMemoryCopyToUser ptr a.data size
    pure 0

def sysKeyboardReadEvent (ptr : UInt64) : Sys UInt64 :=
  if ptr = 0 ∨ !appMemoryUserRange ptr 8 then pure fail
  else do
    let a ← call .keyboardPollEvent [] []
    if !a.isTrue then pure 0
    else do
      let copied ← appMemoryCopyToUser ptr a.data 8
      if copied then pure 1 else abort

def sysGetRtcTime (ptr : UInt64) : Sys UInt64 :=
  if ptr = 0 ∨ !appMemoryUserRange ptr 8 then pure fail
  else do
    let a ← call .cmosReadTime [] []
    let copied ← appMemoryCopyToUser ptr a.data 8
    pure (status copied)

def sysProfilerGetData (ptr size : UInt64) : Sys UInt64 :=
  if ptr = 0 ∨ !appMemoryUserRange ptr size then pure fail
  else do
    -- `profiler_copy_to_user` refuses a buffer that is too small for its header and entries
    let a ← call .profilerCopyToUser [] []
    if size.toNat < a.data.length then pure fail
    else do
      store ptr a.data.length a.data
      pure (UInt64.ofNat a.data.length)

def sysMemoryStats (ptr : UInt64) : Sys UInt64 :=
  if ptr = 0 ∨ !appMemoryUserRange ptr 1096 then pure fail
  else do
    let a ← call .memstatsFill [] []
    store ptr 1096 a.data
    pure 0

/-- `SYS_CLIPBOARD_GET` and `SYS_CLIPBOARD_HISTORY`: a text is cut to the space there is for it. -/
def sysClipboardCopy (f : KernelFunction) (ptr cap : UInt64) (empty : Nat → Sys UInt64) :
    Sys UInt64 := do
  let a ← call f [] []
  if cap.toUInt32 = 0 then empty a.data.length
  else do
    let n := min a.data.length (cap.toUInt32.toNat - 1)
    let copied ← appMemoryCopyToUser ptr (a.data.take n) (UInt64.ofNat (n + 1))
    pure (if copied then UInt64.ofNat n else fail)

/-! ## Files -/

def sysFileRead (pathPtr buffer size : UInt64) : Sys UInt64 := do
  match ← syscallResolvePath pathPtr with
  | none => pure fail
  | some path => do
      let allowed ← Traced.reads fun w => syscallPathReadAllowed w path
      if !allowed then pure fail
      else if !appMemoryUserRange buffer size then abort
      else do
        -- `file_read` delivers at most as many bytes as it is asked for
        let a ← call .fileRead [size.toUInt32.toUInt64] [path]
        store buffer (min a.data.length size.toUInt32.toNat) a.data
        pure (toRax a.value)

def sysFileWrite (pathPtr buffer size : UInt64) : Sys UInt64 := do
  match ← syscallResolvePath pathPtr with
  | none => pure fail
  | some path => do
      let allowed ← Traced.reads fun w => syscallPathWriteAllowed w path
      if !allowed then pure fail
      else if !appMemoryUserRange buffer size then abort
      else do
        let bytes ← load buffer size.toUInt32.toNat
        callResult .fileWrite [] [path, bytes]

/-- `SYS_FILE_DELETE`, `SYS_FILE_MKDIR` and `SYS_FILE_RMDIR` -/
def sysFileChange (f : KernelFunction) (pathPtr : UInt64) : Sys UInt64 := do
  match ← syscallResolvePath pathPtr with
  | none => pure fail
  | some path => do
      let allowed ← Traced.reads fun w => syscallPathWriteAllowed w path
      if !allowed then pure fail else callStatus f [] [path]

def sysFileListDir (pathPtr buffer size : UInt64) : Sys UInt64 := do
  match ← syscallResolvePath pathPtr with
  | none => pure fail
  | some path =>
    if buffer = 0 ∨ size = 0 then pure fail
    else if !appMemoryUserRange buffer size then abort
    else do
      let a ← call .fileListDir [] [path]
      if !a.isTrue then pure fail
      else do
        let copied ← appMemoryCopyToUser buffer a.data (UInt64.ofNat (min size.toUInt32.toNat 2048))
        pure (status copied)

/-- `SYS_FILE_EXISTS` and `SYS_FILE_IS_DIR` give `missing` for a path that does not resolve,
`SYS_FILE_SIZE` likewise. -/
def sysFileQuery (f : KernelFunction) (missing pathPtr : UInt64) : Sys UInt64 := do
  match ← syscallResolvePath pathPtr with
  | none => pure missing
  | some path => callResult f [] [path]

def syscallHandleWrite (handle buffer size : UInt64) : Sys UInt64 :=
  if (handle ≠ 1 ∧ handle ≠ 2) ∨ buffer = 0 then pure fail
  else if !appMemoryUserRange buffer size then abort
  else do
    let bytes ← load buffer size.toNat
    let _ ← call .processOutput [] [bytes]
    pure size

def syscallHandleRead (handle buffer size : UInt64) : Sys UInt64 :=
  if handle ≠ 0 ∨ buffer = 0 then pure fail
  else if !appMemoryUserRange buffer size then abort
  else do
    let a ← call .keyboardReadChar [size] []
    let n := min a.data.length size.toNat
    store buffer n a.data
    pure (UInt64.ofNat n)

/-! ## Backups -/

/-- `fat32_read_volume` and `fat32_write_volume` in batches of 255 sectors, numbered from the start
of the volume; `transfer` moves a batch. -/
def fat32VolumeLoop (transfer : UInt64 → UInt64 → Nat → Sys Unit) :
    Nat → Nat → Nat → UInt64 → UInt64 → Sys Unit
  | 0, _, _, _, _ => pure ()
  | rounds + 1, done, count, lba, buf =>
    if count ≤ done then pure ()
    else do
      let batch := min (count - done) 255
      transfer lba buf batch
      fat32VolumeLoop transfer rounds (done + batch) count (lba + UInt64.ofNat batch) (buf + UInt64.ofNat (512 * batch))

/-- `ata_read_sectors`, which clears what it cannot read. -/
def ataReadSectors (lba buf : UInt64) (count : Nat) : Sys Unit := do
  let a ← call .ataReadSectors [lba, UInt64.ofNat count] []
  store buf (512 * count) a.data

/-- `ata_write_sectors`; the device may take less. -/
def ataWriteSectors (lba buf : UInt64) (count : Nat) : Sys Unit := do
  let taken ← call .ataWriteSectors [lba, UInt64.ofNat count] []
  let _ ← load buf (min taken.value.toNat (512 * count))
  pure ()

/-- `file_backup_read_src` and `file_backup_write_src` -/
def fileBackupVolume (transfer : UInt64 → UInt64 → Nat → Sys Unit) (relLba sectors : UInt32)
    (buf : UInt64) : Sys UInt64 := do
  let fat32 ← call .currentFsIsFat32 [] []
  if !fat32.isTrue ∨ buf = 0 ∨ sectors = 0 then pure fail
  else do
    let ready ← call .fat32Ready [] []
    if !ready.isTrue then pure (toRax (-2))
    else do
      fat32VolumeLoop transfer sectors.toNat 0 sectors.toNat relLba.toUInt64 buf
      pure 0

/-- The number of bytes that `READ_SRC` and `WRITE_SRC` check, in 32 bits. -/
def backupCheckedBytes (sectors : UInt32) : UInt64 := (sectors * 512).toUInt64

/-- `READ_SRC` and `WRITE_SRC` -/
def backupVolume (transfer : UInt64 → UInt64 → Nat → Sys Unit) (ba bb bc : UInt64) : Sys UInt64 :=
  if !appMemoryUserRange bc (backupCheckedBytes bb.toUInt32) then abort
  else fileBackupVolume transfer ba.toUInt32 bb.toUInt32 bc

def sysBackupCtl (op ba bb bc bd : UInt64) : Sys UInt64 := do
  let level ← Traced.reads SysWorld.privilegeLevel
  if level > execPrivR2 then pure fail
  else if op.toUInt32 = 1 then do
    match ← appMemoryCopyStringFromUser pathMaxLen ba with
    | none => pure fail
    | some path => callResult .fileBackupBegin [] [path.val]
  else if op.toUInt32 = 2 then backupVolume ataReadSectors ba bb bc
  else if op.toUInt32 = 3 then
    if !appMemoryUserRange ba bb.toUInt32.toUInt64 then abort
    else do
      let bytes ← load ba bb.toUInt32.toNat
      callResult .fileBackupAppend [] [bytes]
  else if op.toUInt32 = 4 then callResult .fileBackupEnd [] []
  else if op.toUInt32 = 5 then do
    match ← appMemoryCopyStringFromUser pathMaxLen ba with
    | none => pure fail
    | some path => callResult .fileBackupRestoreBegin [] [path.val]
  else if op.toUInt32 = 6 then do
    match ← appMemoryCopyStringFromUser pathMaxLen ba with
    | none => abort
    | some path =>
      if !appMemoryUserRange bc bd.toUInt32.toUInt64 then abort
      else do
        let a ← call .fileBackupReadImg [bb.toUInt32.toUInt64, bd.toUInt32.toUInt64] [path.val]
        store bc (min a.data.length bd.toUInt32.toNat) a.data
        pure (toRax a.value)
  else if op.toUInt32 = 7 then backupVolume ataWriteSectors ba bb bc
  else if op.toUInt32 = 8 then pure 0
  else pure fail

/-! ## Graphics, sound and network -/

def packed16 (v : UInt64) : List UInt64 :=
  [(v >>> 48) &&& 0xFFFF, (v >>> 32) &&& 0xFFFF, (v >>> 16) &&& 0xFFFF, v &&& 0xFFFF]

def rectBytes (v : UInt64) : UInt64 := ((v >>> 16) &&& 0xFFFF) * (v &&& 0xFFFF) * 4

def rectEmpty (v : UInt64) : Bool := (v >>> 16) &&& 0xFFFF == 0 || v &&& 0xFFFF == 0

def sysGraphicsReadFramebuffer (dst rect : UInt64) : Sys UInt64 :=
  if dst = 0 ∨ rectEmpty rect then pure fail
  else if !appMemoryUserRange dst (rectBytes rect) then abort
  else do
    let tmp ← call .kmalloc [rectBytes rect] []
    if !tmp.isTrue then pure fail
    else do
      let a ← call .graphicsUserReadFramebuffer (packed16 rect) []
      if a.value ≤ 0 then do
        let _ ← call .kfree [] []
        pure fail
      else do
        let copied ← appMemoryCopyToUser dst a.data (toRax a.value)
        let _ ← call .kfree [] []
        pure (if copied then toRax a.value else fail)

def sysGraphicsBlit (src rect flags : UInt64) : Sys UInt64 :=
  if src = 0 ∨ rectEmpty rect then pure fail
  else if !appMemoryUserRange src (rectBytes rect) then abort
  else do
    let tmp ← call .kmalloc [rectBytes rect] []
    if !tmp.isTrue then pure fail
    else do
      match ← appMemoryCopyFromUser src (rectBytes rect) with
      | none => do
          let _ ← call .kfree [] []
          abort
      | some pixels => do
          let a ← call .graphicsUserBlit (packed16 rect ++ [flags.toUInt32.toUInt64]) [pixels]
          let _ ← call .kfree [] []
          pure (toRax a.value)

def sysGraphicsDrawText (place textPtr color : UInt64) : Sys UInt64 :=
  if textPtr = 0 then pure fail
  else do
    match ← appMemoryCopyStringFromUser 160 textPtr with
    | none => pure fail
    | some text => callStatus .graphicsUserDrawText ((packed16 place).take 2 ++ [color.toUInt32.toUInt64]) [text.val]

def sysAudioPlayPcm (ptr : UInt64) : Sys UInt64 :=
  if ptr = 0 ∨ !appMemoryUserRange ptr 24 then pure fail
  else do
    match ← appMemoryCopyFromUser ptr 24 with
    | none => pure fail
    | some request =>
      let data := field64 request 0
      let count := field32 request 8
      if data = 0 ∨ count = 0 ∨ count > 50331648 ∨ field32 request 12 = 0 ∨ field16 request 16 = 0 ∨ field16 request 18 = 0
      then pure fail
      else if !appMemoryUserRange data count then pure fail
      else do
        let pcm ← call .kmalloc [count] []
        if !pcm.isTrue then pure fail
        else do
          match ← appMemoryCopyFromUser data count with
          | none => do
              let _ ← call .kfree [] []
              pure fail
          | some bytes => do
              let a ← call .audioPlayPcm [field32 request 12, field16 request 16, field16 request 18] [bytes]
              let _ ← call .kfree [] []
              pure (status a.isTrue)

def sysHttpGetUrl (urlPtr buffer size : UInt64) : Sys UInt64 :=
  if urlPtr = 0 ∨ buffer = 0 ∨ size.toUInt32 = 0 then pure fail
  else do
    let fetchSize := min size.toUInt32.toNat 32767
    match ← appMemoryCopyStringFromUser 256 urlPtr with
    | none => abort
    | some url =>
      if !appMemoryUserRange buffer (UInt64.ofNat fetchSize) then abort
      else do
        let a ← call .httpGetUrl [UInt64.ofNat fetchSize] [url.val]
        if a.value < 0 then pure (toRax a.value)
        else do
          let copied ← appMemoryCopyToUser buffer a.data (toRax (a.value + 1))
          if copied then pure (toRax a.value) else abort

def sysNetPing (ptr : UInt64) : Sys UInt64 :=
  if ptr = 0 then pure fail else withUserText 128 ptr fun target => callStatus .netPing [] [target]

/-- `SYS_NET_RESOLVE`; the answer is the dotted text, which is cut to the space there is for it. -/
def sysNetResolve (hostPtr out size : UInt64) : Sys UInt64 :=
  if hostPtr = 0 ∨ out = 0 ∨ size.toUInt32 = 0 then pure fail
  else
    withUserText 128 hostPtr fun host =>
      if !appMemoryUserRange out size.toUInt32.toUInt64 then abort
      else do
        let a ← call .netResolveIpv4 [] [host]
        if !a.isTrue then pure fail
        else do
          let text := a.data.take (size.toUInt32.toNat - 1)
          let copied ← appMemoryCopyToUser out text (UInt64.ofNat (text.length + 1))
          if copied then pure 0 else abort

def sysFirewallCtl (op rcx rdx : UInt64) : Sys UInt64 :=
  if op = 0 then do
    let _ ← call .firewallSetEnabled [rcx] []
    callDone .auditLog [] [ascii (if rcx ≠ 0 then "enable" else "disable")]
  else if op = 1 then callResult .firewallEnabled [] []
  else if op = 2 then
    if !appMemoryUserRange rcx 24 then pure fail
    else do
      match ← appMemoryCopyFromUser rcx 24 with
      | none => pure fail
      | some rule => do
          let a ← call .firewallAddRule [] [rule]
          let _ ← call .auditLog [] [ascii (if 0 ≤ a.value then "add-rule" else "add-fail")]
          pure (toRax a.value)
  else if op = 3 then do
    let a ← call .firewallRemoveRule [rcx.toUInt32.toUInt64] []
    let _ ← call .auditLog [] [ascii "remove-rule"]
    pure (status a.isTrue)
  else if op = 4 then do
    let a ← call .firewallListRules [] []
    let n := min a.value.toNat rdx.toUInt32.toNat
    if !appMemoryUserRange rcx rdx.toUInt32.toUInt64 then pure fail
    else do
      let copied ← appMemoryCopyToUser rcx a.data (UInt64.ofNat n)
      pure (if copied then UInt64.ofNat n else fail)
  else if op = 5 then do
    let a ← call .firewallSaveRules [] [ascii "/Monios/System/Config/firewall.cfg"]
    let _ ← call .auditLog [] [ascii "save"]
    pure (status a.isTrue)
  else if op = 6 then do
    let inbound ← call .firewallDroppedInbound [] []
    let outbound ← call .firewallDroppedOutbound [] []
    if !appMemoryUserRange rcx 8 then pure fail
    else do
      let _ ← appMemoryCopyToUser rcx (int32Bytes inbound.value ++ int32Bytes outbound.value) 8
      pure 0
  else pure fail

def sysEfsCtl (op pathPtr : UInt64) : Sys UInt64 :=
  withUserText 256 pathPtr fun path =>
    if op = 0 then callStatus .efsEncryptFile [] [path]
    else if op = 1 then callStatus .efsDecryptFile [] [path]
    else if op = 2 then callResult .efsIsEncrypted [] [path]
    else pure fail

/-! ## Privileges -/

def sysRequestR0 : Sys UInt64 := do
  let w ← Traced.reads id
  if w.imageFlags &&& execImageFlagDriver = 0 ∨ w.imageFlags &&& execImageFlagSigned = 0 then pure fail
  else if w.privilegeLevel = execPrivR0 then pure 0
  else pure fail

/-- `exec_grant_current_privilege(EXEC_PRIV_R2)` for a process that does not have it; the call
stands for its writes to the launch information. -/
def execGrantCurrentPrivilege : Sys UInt64 := do
  let _ ← call .execGrantCurrentPrivilege [execPrivR2.toUInt64] []
  Traced.modifies fun w => { w with privilegeLevel := execPrivR2, imageFlags := w.imageFlags ||| execImageFlagNeedsR2 }
  pure 0

def sysRequestR2 (reasonPtr : UInt64) : Sys UInt64 := do
  let level ← Traced.reads SysWorld.privilegeLevel
  if level ≤ execPrivR2 then pure 0
  else do
    let ask (reason : List UInt8) : Sys UInt64 := do
      let program ← Traced.reads SysWorld.programPath
      let a ← call .graphicsRequestUacElevation [execPrivR2.toUInt64] [program, reason]
      if a.isTrue then execGrantCurrentPrivilege else pure fail
    if reasonPtr = 0 then ask [] else withUserText 128 reasonPtr ask

def sysUacElevate (programPtr reasonPtr level : UInt64) : Sys UInt64 :=
  withUserText 256 programPtr fun program =>
    withUserText 256 reasonPtr fun reason =>
      callStatus .uacRequestElevation [level.toUInt32.toUInt64] [program, reason]

def sysDriverLoad (pathPtr : UInt64) : Sys UInt64 := do
  let level ← Traced.reads SysWorld.privilegeLevel
  if level > execPrivR2 then pure fail
  else do
    match ← syscallResolvePath pathPtr with
    | none => pure fail
    | some path => callStatus .driverManagerLoad [] [path]

def sysDriverUnload (namePtr : UInt64) : Sys UInt64 := do
  let level ← Traced.reads SysWorld.privilegeLevel
  if level > execPrivR2 ∨ namePtr = 0 then pure fail
  else withUserText pathMaxLen namePtr fun name => callStatus .driverManagerUnload [] [name]

def sysProcessTerminate (pid : UInt64) : Sys UInt64 := do
  let allowed ← syscallSignalTargetAllowed pid
  if !allowed then pure fail else callDone .pcbProcessAbort [pid.toUInt32.toUInt64] []

def sysClipboardSet (ptr : UInt64) : Sys UInt64 :=
  if ptr = 0 then pure 0
  else do
    match ← appMemoryCopyStringFromUser 256 ptr with
    | none => pure 0
    | some text => callDone .graphicsClipboardSetText [] [text.val]

def sysNotificationPost (titlePtr bodyPtr : UInt64) : Sys UInt64 :=
  withUserText 128 titlePtr fun title =>
    withUserText 256 bodyPtr fun body => callDone .graphicsNotificationPost [] [title, body]

/-! ## Captured programs -/

/-- The loop that copies the query string of `SYS_EXEC_CAPTURE`: it reads a byte, stops at a zero,
and keeps 255. -/
def queryStringFrom (src : UInt64) : Nat → Nat → List UInt8 → Sys (List UInt8)
  | 0, index, copied => do
      let _ ← load (src + UInt64.ofNat index) 1
      pure copied
  | n + 1, index, copied => do
      let byte ← load (src + UInt64.ofNat index) 1
      if byte = [0] then pure copied else queryStringFrom src n (index + 1) (copied ++ byte)

def queryString (src : UInt64) : Sys (List UInt8) :=
  if src ≠ 0 then queryStringFrom src 255 0 [] else pure []

/-- `SYS_EXEC_CAPTURE` from the query string on. -/
def execCaptureRun (path : List UInt8) (out cap exitCode query : UInt64) : Sys UInt64 := do
  let queryStr ← queryString query
  let env := (if queryStr.isEmpty then [] else [ascii "QUERY_STRING=" ++ queryStr]) ++
    [ascii "REQUEST_METHOD=GET", ascii "SERVER_SOFTWARE=Monios/1.0"]
  let buf ← call .kmalloc [cap] []
  if !buf.isTrue then pure fail
  else do
    let a ← call .execRunCapture [cap] (path :: env)
    if !a.isTrue then do
      let _ ← call .kfree [] []
      pure fail
    else do
      -- the first four bytes of the answer are the exit code, the rest is the output
      let output := (a.data.drop 4).takeWhile (· != 0)
      let n := min output.length (cap.toNat - 1)
      let _ ← appMemoryCopyToUser out output (UInt64.ofNat (n + 1))
      if exitCode ≠ 0 then do
        let _ ← appMemoryCopyToUser exitCode (a.data.take 4) 4
        let _ ← call .kfree [] []
        pure (UInt64.ofNat n)
      else do
        let _ ← call .kfree [] []
        pure (UInt64.ofNat n)

def sysExecCapture (pathPtr out size exitCode query : UInt64) : Sys UInt64 :=
  let cap := size.toUInt32.toUInt64
  if pathPtr = 0 ∨ out = 0 ∨ cap = 0 ∨ cap > 65536 then pure fail
  else do
    match ← appMemoryCopyStringFromUser pathMaxLen pathPtr with
    | none => abort
    | some path =>
      if !appMemoryUserRange out cap then abort
      else if exitCode ≠ 0 ∧ !appMemoryUserRange exitCode 4 then abort
      else execCaptureRun path.val out cap exitCode query

def sysPipe (ptr : UInt64) : Sys UInt64 :=
  if ptr = 0 then pure fail
  else do
    let a ← call .pipeCreate [] []
    if a.value ≠ 0 then pure fail
    else do
      let copied ← appMemoryCopyToUser ptr a.data 8
      pure (status copied)

/-- `SYS_SHM_CALL`; an address to detach is compared, not followed. -/
def sysShmCall (op rcx rdx : UInt64) : Sys UInt64 :=
  if op = 1 then callResult .shmCreate [rcx.toUInt32.toUInt64, rdx.toUInt32.toUInt64] []
  else if op = 2 then callResult .shmAttach [rcx.toUInt32.toUInt64] []
  else if op = 3 then callResult .shmDetach [rcx] []
  else if op = 4 then callResult .shmDestroy [rcx.toUInt32.toUInt64] []
  else pure fail

def sysGetpgid (pid : UInt64) : Sys UInt64 :=
  if pid.toUInt32 = 0 then do
    let current ← call .pcbCurrentPid [] []
    callResult .pcbGetpgid [(toRax current.value).toUInt32.toUInt64] []
  else callResult .pcbGetpgid [pid.toUInt32.toUInt64] []

/-! ## Dispatch -/

/-- The calls up to `SYS_HTTP_GET_URL`. -/
def dispatchBasic (f : SyscallFrame) : Sys UInt64 :=
  match f.rax with
  | 0 => callResult .timerTicks [] []
  | 1 => sysLogString f.rbx
  | 2 => callResult .fileRootEntryCount [] []
  | 3 => sysFileRead f.rbx f.rcx f.rdx
  | 4 => callDone .kernelRequestGraphicsMode [] []
  | 5 => sysFileWrite f.rbx f.rcx f.rdx
  | 6 => sysFileChange .fileDelete f.rbx
  | 7 => sysFileChange .fileMkdir f.rbx
  | 8 => sysFileChange .fileRmdir f.rbx
  | 9 => sysFileListDir f.rbx f.rcx f.rdx
  | 10 => syscallHandleWrite f.rbx f.rcx f.rdx.toUInt32.toUInt64
  | 11 => syscallHandleRead f.rbx f.rcx f.rdx.toUInt32.toUInt64
  | 12 => sysGetCwd f.rbx f.rcx
  | 13 => sysFileQuery .fileExists 0 f.rbx
  | 14 => sysFileQuery .fileSize fail f.rbx
  | 15 => sysSnapshot .mouseGetSnapshot (fun _ => false) f.rbx f.rcx 16
  | 16 => sysFileQuery .fileIsDir 0 f.rbx
  | 17 => callDone .sysExit [f.rbx.toUInt32.toUInt64] []
  | 18 => syscallSystemStatus f.rbx f.rcx.toUInt32.toUInt64
  | 19 => callStatus .graphicsUserFillRect (packed16 f.rbx ++ [f.rcx.toUInt32.toUInt64]) []
  | 20 => callDone .graphicsUserPresent [] []
  | 21 => sysAudioPlayPcm f.rbx
  | 22 => callStatus .graphicsOpenCube3dWindow [] []
  | 23 => sysSocketCall f.rbx f.rcx f.rdx
  | 24 => sysFutexCall f.rbx f.rcx f.rdx
  | 25 => sysIpcCall f.rbx f.rcx f.rdx
  | 26 => sysSignalCall f.rbx f.rcx f.rdx
  | 27 => sysRequestR0
  | 28 => sysRequestR2 f.rbx
  | 29 => syscallRegistryGet f.rbx f.rcx f.rdx.toUInt32.toUInt64
  | 30 => syscallRegistrySet f.rbx f.rcx
  | 31 => syscallDefaultAppGet f.rbx f.rcx f.rdx.toUInt32.toUInt64
  | 32 => syscallDefaultAppSet f.rbx f.rcx
  | 33 => syscallExecDefer f.rbx
  | 34 => syscallInstallerCall f.rbx f.rcx f.rdx.toUInt32.toUInt64
  | 35 => sysGraphicsDrawText f.rbx f.rcx f.rdx
  | 36 => sysConsoleSetTitle f.rbx
  | 37 => callStatus .graphicsOpenNotepadWindow [] []
  | 38 => callResult .graphicsFramebufferWidth [] []
  | 39 => callResult .graphicsFramebufferHeight [] []
  | 40 => sysDriverLoad f.rbx
  | 41 => sysDriverUnload f.rbx
  | 42 => sysSnapshot .driverManagerSnapshot (fun a => !a.isTrue) f.rbx f.rcx 3080
  | 43 => sysHttpGetUrl f.rbx f.rcx f.rdx
  | _ => pure fail

/-- The calls from `SYS_CLIPBOARD_SET` to `SYS_PACKAGE_CTL`. -/
def dispatchExpansion (f : SyscallFrame) : Sys UInt64 :=
  match f.rax with
  | 44 => sysClipboardSet f.rbx
  | 45 => sysClipboardCopy .graphicsClipboardGetText f.rbx f.rcx fun n => pure (UInt64.ofNat n)
  | 46 => sysClipboardCopy .graphicsClipboardHistoryPack f.rbx f.rcx fun _ => callResult .graphicsClipboardHistoryCount [] []
  | 47 => sysNotificationPost f.rbx f.rcx
  | 48 => callDone .graphicsThemeSet [if f.rbx ≠ 0 then 1 else 0, f.rcx.toUInt32.toUInt64] []
  | 49 => withUserText 256 f.rbx fun path => callDone .graphicsWallpaperSet [] [path]
  | 50 => callStatus .graphicsDisplayModeSet [f.rbx &&& 0xFFFF, f.rcx &&& 0xFFFF] []
  | 51 => sysProcessRecord .pcbSnapshot f.rbx f.rcx 3312
  | 52 => sysProcessTerminate f.rbx
  | 53 => sysProcessRecord .processStats f.rbx f.rcx 104
  | 54 => if f.rbx = 4 then callStatus .powerHibernateToDisk [] [] else pure 0
  | 55 => pure 0
  | 56 => callStatus .ntpSyncAll [] []
  | 57 => sysPrinterCtl f.rbx
  | 58 => fsCacheCtl f.rbx f.rcx
  | 59 => zcompCtl f.rbx f.rcx
  | 60 => ioschedCtl f.rbx f.rcx
  | 61 => gpuAccelCtl f.rbx f.rcx f.rdx
  | 62 => sysFirewallCtl f.rbx f.rcx f.rdx
  | 63 => sysEfsCtl f.rbx f.rcx
  | 64 => sysUacElevate f.rbx f.rcx f.rdx
  | 65 => usbMountCtl f.rbx f.rcx f.rdx
  | 66 => pure fail
  | 67 => debugCtl f.rbx f.rcx f.rdx
  | 68 => callResult .profileCtl [f.rbx, f.rcx] []
  | 69 => pure 0
  | _ => pure fail

/-- The calls from `SYS_NET_PING` on. -/
def dispatchLate (f : SyscallFrame) : Sys UInt64 :=
  match f.rax with
  | 70 => sysNetPing f.rbx
  | 71 => sysNetResolve f.rbx f.rcx f.rdx
  | 72 => sysKeyboardReadEvent f.rbx
  | 73 => sysGraphicsReadFramebuffer f.rbx f.rcx
  | 74 => sysAudioPlayerCtl f.rbx
  | 75 => sysGetRtcTime f.rbx
  | 76 => callResult .profilerStart [f.rbx] []
  | 77 => callDone .profilerStop [] []
  | 78 => sysProfilerGetData f.rbx f.rcx
  | 79 => sysMemoryStats f.rbx
  | 80 => sysExecCapture f.rbx f.rcx f.rdx f.rsi f.rdi
  | 81 => callResult .sysFork [] []
  | 83 => sysWaitpid f.rbx f.rcx
  | 90 => callResult .sysGetpid [] []
  | 91 => callResult .sysGetppid [] []
  | 94 => callDone .sysSchedYield [] []
  | 95 => callDone .pcbSetPriority [f.rbx.toUInt32.toUInt64] []
  | 96 => sysBackupCtl f.rbx f.rcx f.rdx f.rsi f.rdi
  | 97 => sysGraphicsBlit f.rbx f.rcx f.rdx
  | 98 => sysAudioRecCtl f.rbx
  | 99 => videoCtl f.rbx
  | 100 => lptCtl f.rbx f.rcx f.rdx
  | 102 => sysMemtestCtl f.rbx
  | 103 => sysPipe f.rbx
  | 104 => sysShmCall f.rbx f.rcx f.rdx
  | 105 => callResult .pcbSetpgid [f.rbx.toUInt32.toUInt64, f.rcx.toUInt32.toUInt64] []
  | 106 => sysGetpgid f.rbx
  | 107 => callResult .pcbSetsid [] []
  | _ => pure fail

def syscallInterruptDispatch (f : SyscallFrame) : Sys UInt64 :=
  if f.rax < 44 then dispatchBasic f
  else if f.rax < 70 then dispatchExpansion f
  else dispatchLate f

end Monios.Model.Syscalls
