import Monios.Model.Syscalls.Control

/-!
# Calls with request records

`SYS_SOCKET_CALL`, `SYS_FUTEX_CALL`, `SYS_IPC_CALL`, `SYS_SIGNAL_CALL`, `SYS_INSTALLER_CALL` and the
calls of the registry: records of the process that may hold further pointers.
-/

set_option autoImplicit false

namespace Monios.Model.Syscalls

open Monios.Library

/-! ## Sockets -/

/-- `SOCKET_CALL_UDP_OPEN` and `SOCKET_CALL_TCP_OPEN` -/
def socketOpen (f : KernelFunction) (ptr size : UInt64) : Sys UInt64 :=
  withRequest ptr size 8 fun request => do
    let a ← call f [field16 request 0] []
    replyOrAbort ptr (setField request 4 (int32Bytes a.value)) 8 (if 0 ≤ a.value then 0 else fail)

/-- `SOCKET_CALL_SENDTO` -/
def socketSendto (ptr size : UInt64) : Sys UInt64 :=
  withRequest ptr size 88 fun request =>
    if !syscallFixedStringTerminated (slice request 4 64) then pure fail
    else if !appMemoryUserRange (field64 request 72) (field16 request 80) then abort
    else do
      let payload ← load (field64 request 72) (field16 request 80).toNat
      callResult .socketSendto [field32 request 0, field16 request 68] [slice request 4 64, payload]

/-- `SOCKET_CALL_RECVFROM` -/
def socketRecvfrom (ptr size : UInt64) : Sys UInt64 :=
  withRequest ptr size 40 fun request =>
    if !appMemoryUserRange (field64 request 24) (field16 request 32) then abort
    else do
      let a ← call .socketRecvfrom [field32 request 0, field16 request 32] []
      if a.value > 0 then do
        store (field64 request 24) (min a.value.toNat (field16 request 32).toNat) (a.data.drop 18)
        replyOrAbort ptr (setField request 4 (a.data.take 18)) 40 (toRax a.value)
      else pure (toRax a.value)

/-- `SOCKET_CALL_TCP_CONNECT` -/
def socketTcpConnect (ptr size : UInt64) : Sys UInt64 :=
  withRequest ptr size 72 fun request =>
    if !syscallFixedStringTerminated (slice request 4 64) then pure fail
    else callStatus .socketTcpConnect [field32 request 0, field16 request 68] [slice request 4 64]

/-- `SOCKET_CALL_TCP_SEND` -/
def socketTcpSend (ptr size : UInt64) : Sys UInt64 :=
  withRequest ptr size 24 fun request =>
    if !appMemoryUserRange (field64 request 8) (field16 request 16) then abort
    else do
      let data ← load (field64 request 8) (field16 request 16).toNat
      callResult .socketTcpSend [field32 request 0] [data]

/-- `SOCKET_CALL_TCP_RECV` -/
def socketTcpRecv (ptr size : UInt64) : Sys UInt64 :=
  withRequest ptr size 24 fun request =>
    if !appMemoryUserRange (field64 request 8) (field16 request 16) then abort
    else do
      let a ← call .socketTcpRecv [field32 request 0, field16 request 16] []
      store (field64 request 8) (min a.value.toNat (field16 request 16).toNat) a.data
      pure (toRax a.value)

/-- `SOCKET_CALL_TCP_ACCEPT` -/
def socketTcpAccept (ptr size : UInt64) : Sys UInt64 :=
  withRequest ptr size 28 fun request => do
    let a ← call .socketTcpAccept [field32 request 0] []
    replyOrAbort ptr (setField request 4 (int32Bytes a.value ++ a.data)) 28 (if 0 ≤ a.value then 0 else fail)

def sysSocketCall (op ptr size : UInt64) : Sys UInt64 :=
  if op = 1 then socketOpen .socketUdpOpen ptr size
  else if op = 2 then callStatus .socketClose [ptr.toUInt32.toUInt64] []
  else if op = 3 then socketSendto ptr size
  else if op = 4 then socketRecvfrom ptr size
  else if op = 5 then socketOpen .socketTcpOpen ptr size
  else if op = 6 then socketTcpConnect ptr size
  else if op = 7 then socketTcpSend ptr size
  else if op = 8 then socketTcpRecv ptr size
  else if op = 9 then callResult .socketTcpHasData [ptr.toUInt32.toUInt64] []
  else if op = 10 then callResult .socketTcpIsConnected [ptr.toUInt32.toUInt64] []
  else if op = 11 then
    withRequest ptr size 4 fun request => do
      let a ← call .socketTcpListen [field32 request 0] []
      pure (if a.value = 0 then 0 else fail)
  else if op = 12 then socketTcpAccept ptr size
  else pure fail

/-! ## Futexes, messages and signals -/

def syscallFutexAddressAllowed (address : UInt64) : Bool :=
  address != 0 && appMemoryUserRange address 4

/-- A call of `SYS_FUTEX_CALL`; the address is a key, its memory is not read. -/
def futexCall (f : KernelFunction) (ptr size requestSize : UInt64)
    (args : List UInt8 → List UInt64) (resultAt : Nat) (result : Int → UInt64) : Sys UInt64 :=
  withRequest ptr size requestSize fun request =>
    if !syscallFutexAddressAllowed (field64 request 0) then pure fail
    else do
      let a ← call f (args request) []
      replyOrAbort ptr (setField request resultAt (int32Bytes a.value)) requestSize (result a.value)

def sysFutexCall (op ptr size : UInt64) : Sys UInt64 :=
  if op = 1 then
    futexCall .futexWait ptr size 24 (fun r => [field64 r 0, field32 r 8, field32 r 12]) 16
      fun v => if 0 ≤ v then 0 else fail
  else if op = 2 then futexCall .futexWake ptr size 16 (fun r => [field64 r 0, field32 r 8]) 12 fun _ => 0
  else if op = 3 then futexCall .futexWaiterCount ptr size 16 (fun r => [field64 r 0]) 12 fun _ => 0
  else pure fail

/-- `IPC_CALL_RECV` -/
def ipcRecv (ptr size : UInt64) : Sys UInt64 :=
  withRequest ptr size 24 fun request =>
    if !appMemoryUserRange (field64 request 8) (field32 request 16) then abort
    else do
      let a ← call .ipcRecvText [field32 request 0] []
      let reply := setField request 20 (int32Bytes a.value)
      let result := if 0 ≤ a.value then 0 else fail
      if a.value > 0 then do
        let copySize := min (a.value.toNat + 1) (field32 request 16).toNat
        let copied ← appMemoryCopyToUser (field64 request 8) a.data (UInt64.ofNat copySize)
        if copied then replyOrAbort ptr reply 24 result else abort
      else replyOrAbort ptr reply 24 result

def sysIpcCall (op ptr size : UInt64) : Sys UInt64 :=
  if op = 1 then
    withRequest ptr size 20 fun request =>
      if !syscallFixedStringTerminated (slice request 0 16) then pure fail
      else do
        let a ← call .ipcPortCreate [] [slice request 0 16]
        replyOrAbort ptr (setField request 16 (int32Bytes a.value)) 20 (if 0 ≤ a.value then 0 else fail)
  else if op = 2 then
    withRequest ptr size 132 fun request =>
      if !syscallFixedStringTerminated (slice request 4 128) then pure fail
      else callStatus .ipcSendText [field32 request 0] [slice request 4 128]
  else if op = 3 then ipcRecv ptr size
  else pure fail

def syscallSignalTargetAllowed (pid : UInt64) : Sys Bool := do
  let level ← Traced.reads SysWorld.privilegeLevel
  if level ≤ execPrivR2 then pure true
  else do
    let current ← call .pcbCurrentPid [] []
    pure (pid.toUInt32 == (toRax current.value).toUInt32)

def sysSignalCall (op ptr size : UInt64) : Sys UInt64 :=
  withRequest ptr size 12 fun request => do
    let allowed ← syscallSignalTargetAllowed (field32 request 0)
    if !allowed then pure fail
    else if op = 1 then callStatus .signalSend [field32 request 0, field32 request 4 &&& 0xFF] []
    else if op = 2 then do
      let mask ← call .signalPending [field32 request 0] []
      replyOrAbort ptr (setField request 8 (int32Bytes mask.value)) 12 0
    else if op = 3 then do
      let mask ← call .signalTakePending [field32 request 0] []
      replyOrAbort ptr (setField request 8 (int32Bytes mask.value)) 12 0
    else if op = 4 then callDone .signalClear [field32 request 0] []
    else pure fail

/-! ## The registry -/

/-- `syscall_registry_get` and `syscall_default_app_get`: a name is looked up, the text it stands
for is copied. -/
def lookupText (f : KernelFunction) (nameMax : Nat) (namePtr textPtr textSize : UInt64) :
    Sys UInt64 :=
  if namePtr = 0 ∨ textPtr = 0 ∨ textSize = 0 then pure fail
  else do
    match ← appMemoryCopyStringFromUser nameMax namePtr with
    | none => abort
    | some name =>
      if !appMemoryUserRange textPtr textSize then abort
      else do
        let a ← call f [] [name.val]
        let text := a.data.takeWhile (· != 0)
        if !a.isTrue ∨ text.length + 1 > textSize.toNat then pure fail
        else do
          let copied ← appMemoryCopyToUser textPtr text (UInt64.ofNat (text.length + 1))
          if copied then pure 0 else abort

/-- `syscall_registry_set` and `syscall_default_app_set` -/
def assignText (f : KernelFunction) (nameMax textMax : Nat) (namePtr textPtr : UInt64) :
    Sys UInt64 :=
  if namePtr = 0 ∨ textPtr = 0 then pure fail
  else do
    let level ← Traced.reads SysWorld.privilegeLevel
    if level > execPrivR2 then pure fail
    else do
      match ← appMemoryCopyStringFromUser nameMax namePtr with
      | none => abort
      | some name => do
          match ← appMemoryCopyStringFromUser textMax textPtr with
          | none => abort
          | some text => callStatus f [] [name.val, text.val]

def syscallRegistryGet (keyPtr valuePtr valueSize : UInt64) : Sys UInt64 :=
  lookupText .registryGetCopy 48 keyPtr valuePtr valueSize

def syscallRegistrySet (keyPtr valuePtr : UInt64) : Sys UInt64 :=
  assignText .registrySet 48 128 keyPtr valuePtr

def syscallDefaultAppGet (extensionPtr appPathPtr appPathSize : UInt64) : Sys UInt64 :=
  lookupText .registryDefaultAppForExtension 32 extensionPtr appPathPtr appPathSize

def syscallDefaultAppSet (extensionPtr appPathPtr : UInt64) : Sys UInt64 :=
  assignText .registrySetDefaultApp 32 pathMaxLen extensionPtr appPathPtr

def syscallExecDefer (pathPtr : UInt64) : Sys UInt64 := do
  let level ← Traced.reads SysWorld.privilegeLevel
  if pathPtr = 0 ∨ level > execPrivR2 then pure fail
  else do
    match ← appMemoryCopyStringFromUser pathMaxLen pathPtr with
    | none => abort
    | some path => callStatus .shellDeferExecPath [] [path.val]

/-! ## The installer -/

def withInstallerRequest (ptr size requestSize : UInt64) (handle : List UInt8 → Sys UInt64) :
    Sys UInt64 :=
  if ptr = 0 ∨ size < requestSize then pure fail
  else do
    match ← appMemoryCopyFromUser ptr requestSize with
    | none => abort
    | some request => handle request

def withUserPath (ptr : UInt64) (handle : List UInt8 → Sys UInt64) : Sys UInt64 := do
  match ← appMemoryCopyStringFromUser pathMaxLen ptr with
  | none => abort
  | some path => handle path.val

def withUserData (ptr count : UInt64) (handle : List UInt8 → Sys UInt64) : Sys UInt64 :=
  if count > 4096 then abort
  else do
    match ← appMemoryCopyFromUser ptr count with
    | none => abort
    | some data => handle data

def replyWritten (ptr : UInt64) (request : List UInt8) (o : Nat) (size : UInt64) (a : Answer) :
    Sys UInt64 :=
  replyOrAbort ptr (setField request o (le32 a.value.toNat)) size (toRax a.value)

def syscallInstallerCall (op ptr size : UInt64) : Sys UInt64 :=
  if op = 0 then callResult .installerBootMediaPresent [] []
  else if op = 2 then callDone .installerRequestReboot [] []
  else if op = 4 then
    if ptr = 0 ∨ size < 128 then pure fail
    else do
      let a ← call .installerListTargets [] []
      if a.value < 0 then pure (toRax a.value) else replyOrAbort ptr a.data 128 (toRax a.value)
  else if op = 1 then
    withInstallerRequest ptr size 24 fun request =>
      withUserPath (field64 request 0) fun source => do
        let a ← call .installerWriteFileToDisk [field32 request 8, field32 request 12, field32 request 16] [source]
        replyWritten ptr request 20 24 a
  else if op = 5 then
    withInstallerRequest ptr size 24 fun request =>
      withUserData (field64 request 0) (field32 request 12) fun data => do
        let a ← call .installerWriteBufferToDisk [field32 request 8] [data]
        replyWritten ptr request 16 24 a
  else if op = 3 then
    withInstallerRequest ptr size 32 fun request =>
      withUserPath (field64 request 0) fun target =>
        withUserData (field64 request 8) (field32 request 20) fun data => do
          let a ← call .installerWriteTargetFile [field32 request 16] [target, data]
          replyWritten ptr request 24 32 a
  else if op = 6 then
    withInstallerRequest ptr size 40 fun request =>
      withUserPath (field64 request 0) fun source =>
        withUserPath (field64 request 16) fun target => do
          let a ← call .installerCopyFileToTarget [field32 request 8, field32 request 28, field32 request 24] [source, target]
          replyWritten ptr request 32 40 a
  else if op = 7 then
    withInstallerRequest ptr size 32 fun request =>
      withUserPath (field64 request 0) fun source =>
        if field32 request 24 > 4096 then abort
        else do
          let a ← call .installerReadMediaFile [field32 request 8, field32 request 24] [source]
          if a.value > 0 then do
            let copied ← appMemoryCopyToUser (field64 request 16) a.data (toRax a.value)
            if copied then replyWritten ptr request 28 32 a else abort
          else replyWritten ptr request 28 32 a
  else if op = 8 then
    withInstallerRequest ptr size 16 fun request =>
      withUserPath (field64 request 0) fun source => do
        let a ← call .installerMediaFileSize [] [source]
        let reply := setField request 8 (int32Bytes a.value ++ [if 0 ≤ a.value then 1 else 0, 0, 0, 0])
        replyOrAbort ptr reply 16 (toRax a.value)
  else pure fail

end Monios.Model.Syscalls
