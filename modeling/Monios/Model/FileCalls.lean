import Mathlib.Data.List.TakeWhile
import Monios.Model.FsCache
import Monios.Model.FsPerm
import Monios.Model.Vfs

/-!
# File calls

The part of `lib/file.c` between the system calls and the drivers: a path is resolved to a mount
point and to the path in its file system, the driver of that file system is called, and what is read
goes through the cache.  There is one driver for each type of file system; what all of them work on
is a machine `σ`, and they may do and return anything.

The hooks stand for what the other modules answer during one call: the access checks, the encryption
and the quotas.
-/

set_option autoImplicit false

namespace Monios.Model.FileCalls

open Monios.Library Monios.Model.FsCache

variable {σ : Type}

/-- `mount_point_t`, with the path -/
structure Mount extends MountPoint where
  path : Path

structure FsDriver (σ : Type) where
  isSymlink : Path → σ → Bool × σ
  readSymlink : Path → Nat → σ → (Int × List UInt8) × σ
  isPresent : Path → σ → Bool × σ
  isDir : Path → σ → Bool × σ
  fileSize : Path → σ → Int × σ
  readFileAt : Loader σ
  writeFile : Path → List UInt8 → σ → Int × σ
  delete : Path → σ → Bool × σ
  rename : Path → Path → σ → Bool × σ
  /-- the total and the free bytes, for `file_disk_space` -/
  space : σ → Option (Nat × Nat) × σ

/-- What the `default` branches do. -/
def FsDriver.absent : FsDriver σ where
  isSymlink _ x := (false, x)
  readSymlink _ _ x := ((-1, []), x)
  isPresent _ x := (false, x)
  isDir _ x := (false, x)
  fileSize _ x := (-1, x)
  readFileAt _ _ _ x := (-1, [], x)
  writeFile _ _ x := (-1, x)
  delete _ x := (false, x)
  rename _ _ x := (false, x)
  space x := (none, x)

structure Env (σ : Type) where
  driver : FsType → FsDriver σ
  /-- the init routines, for what `file_mount_partition_hint` and `file_blockdev_hint` answer -/
  init : FsType → Int → Int → σ → Bool × σ
  /-- whether `kmalloc` finds so many bytes -/
  kmalloc : Nat → σ → Bool × σ
  flushers : Flushers σ

/-- What the modules around `file.c` answer during a call. -/
structure Hooks where
  uacAccess : Option (Path → Bool → Bool) := none
  /-- `fs_perm_check` for the process that calls -/
  permCheck : Path → Bool → Bool → Bool := fun _ _ _ => true
  efsIsEncrypted : Option (Path → Bool) := none
  efsEncrypt : Option (Path → List UInt8 → List UInt8) := none
  efsDecrypt : Option (Path → List UInt8 → List UInt8) := none
  /-- `limit_bytes` of `g_quotas` -/
  quotaLimit : UInt8 → Nat := fun _ => 0

/-- The globals of `file.c`, and the cache in front of the machine. -/
structure FileState (σ : Type) where
  cache : Cache σ
  /-- `g_mount_points` -/
  mounts : Fin 8 → Mount
  currentFs : FsType
  currentMountPath : Path
  currentMountPartition : Int
  currentBlockdev : Int

abbrev FileM (σ α : Type) : Type := Traced (FileState σ) FlusherCall α

def onMachine {α : Type} (f : σ → α × σ) : FileM σ α := fun s =>
  ((f s.cache.machine).1, { s with cache := { s.cache with machine := (f s.cache.machine).2 } }, [])

def onCache {α : Type} (m : Cached σ α) : FileM σ α := fun s =>
  (m.result s.cache, { s with cache := m.state s.cache }, m.log s.cache)

def bufferString (bytes : List UInt8) : CString :=
  ⟨bytes.takeWhile (· != 0), fun h => by simpa using List.mem_takeWhile_imp h⟩

/-! ## Mount points -/

/-- `file_mount_partition_hint`, while `pending` is `g_pending_mount_partition`. -/
def fileMountPartitionHint (mounts : Fin 8 → Mount) (pending : Int) : Int :=
  if 0 ≤ pending then pending
  else
    match (List.finRange 8).find? fun i => (mounts i).mounted && decide (0 ≤ (mounts i).partition) with
    | some i => (mounts i).partition
    | none => -1

/-- `file_blockdev_hint`, while `pending` is `g_pending_blockdev`. -/
def fileBlockdevHint (s : FileState σ) (pending : Int) : Int :=
  if 0 ≤ pending then pending else s.currentBlockdev

/-- The test of `find_mount_point` for one mount point. -/
def mountMatches (path : Path) (mount : Mount) : Bool :=
  if mount.path.length = 3 ∧ mount.path[2]? = some pathSeparator then
    path[0]? == mount.path[0]? && path[1]? == some 0x3A && path[2]? == some pathSeparator
  else
    mount.path.isPrefixOf path && (path.length == mount.path.length || path[mount.path.length]? == some pathSeparator)

/-- The loop of `find_mount_point`; the mount point found so far comes with the length of its path.
-/
def findMountFrom (mounts : Fin 8 → Mount) (path : Path) :
    List (Fin 8) → Option (Fin 8) × Nat → Option (Fin 8)
  | [], best => best.1
  | i :: is, best =>
    let mount := mounts i
    if mount.mounted && !mount.path.isEmpty && mountMatches path mount && decide (best.2 < mount.path.length) then
      findMountFrom mounts path is (some i, mount.path.length)
    else findMountFrom mounts path is best

def findMountPoint (mounts : Fin 8 → Mount) (path : Path) : Option (Fin 8) :=
  if path.isEmpty then none else findMountFrom mounts path (List.finRange 8) (none, 0)

/-- `set_current_mount` for a mounted entry -/
def setCurrentMount (mount : Mount) (s : FileState σ) : FileState σ :=
  { s with
    currentFs := mount.fsType
    currentMountPartition := mount.partition
    currentBlockdev := mount.blockdevIndex
    currentMountPath := mount.path }

/-- `fs_init_by_type`, for the pending partition and block device. -/
def fsInitByType (env : Env σ) (type : FsType) (partition blockdev : Int) : FileM σ Bool := do
  let s ← Traced.reads id
  if type = .none then pure false
  else onMachine (env.init type (fileMountPartitionHint s.mounts partition) (fileBlockdevHint s blockdev))

/-- `switch_to_mount`; the relative path is that of `make_relative_path`. -/
def switchToMount (env : Env σ) (mountIdx : Fin 8) : FileM σ Bool := do
  let s ← Traced.reads id
  let mount := s.mounts mountIdx
  if !mount.mounted then pure false
  else if s.currentFs = mount.fsType ∧ s.currentMountPartition = mount.partition ∧
      s.currentBlockdev = mount.blockdevIndex then do
    Traced.modifies (setCurrentMount mount)
    pure true
  else do
    let ok ← fsInitByType env mount.fsType mount.partition mount.blockdevIndex
    if !ok then pure false
    else do
      Traced.modifies (setCurrentMount mount)
      pure true

def makeRelativePath (path mountPath : Path) : Path :=
  if (path.drop mountPath.length).isEmpty then [pathSeparator] else path.drop mountPath.length

def filePathToBackend (path : Path) : Option Path :=
  if pathMaxLen ≤ path.length then none
  else if path.isEmpty then some [0x2F]
  else some (path.map fun ch => if ch = pathSeparator then 0x2F else ch)

/-- `resolve_path`: the canonical path, and the one in the file system. -/
def resolvePath (env : Env σ) (path : CString) : FileM σ (Option (Path × Path)) :=
  match pathResolve pathRootBytes path pathMaxLen with
  | none => pure none
  | some resolved => do
      let s ← Traced.reads id
      match findMountPoint s.mounts resolved with
      | none => pure none
      | some mountIdx => do
          let ok ← switchToMount env mountIdx
          if !ok then pure none
          else pure ((filePathToBackend (makeRelativePath resolved (s.mounts mountIdx).path)).map fun backend =>
            (resolved, backend))

/-! ## Links -/

def driverOf (env : Env σ) (type : FsType) : FsDriver σ :=
  if type = .none then FsDriver.absent else env.driver type

def linkDriver (env : Env σ) (type : FsType) : FsDriver σ :=
  if type = .fat32 ∨ type = .extfs then env.driver type else FsDriver.absent

def renameDriver (env : Env σ) (type : FsType) : FsDriver σ :=
  if type = .fat32 ∨ type = .ntfs ∨ type = .extfs then env.driver type else FsDriver.absent

/-- A driver with `file_disk_space`. -/
def spaceDriver (env : Env σ) (type : FsType) : FsDriver σ :=
  if type = .netfs ∨ type = .none then FsDriver.absent else env.driver type

def callDriver {α : Type} (of : FsType → FsDriver σ) (f : FsDriver σ → σ → α × σ) : FileM σ α := do
  let s ← Traced.reads id
  onMachine (f (of s.currentFs))

def linkDirectory (resolved : Path) : Path :=
  let dir := (resolved.reverse.dropWhile (· != pathSeparator)).reverse
  if 3 < dir.length then dir else [resolved.headD 0, 0x3A, pathSeparator]

/-- The loop of `file_follow_links`, with the rounds that are left. -/
def followFrom (env : Env σ) : Nat → CString → FileM σ (Option (Path × Path))
  | 0, _ => pure none
  | depth + 1, current => do
      match ← resolvePath env current with
      | none => pure none
      | some (resolved, backend) => do
          let link ← callDriver (linkDriver env) fun d => d.isSymlink backend
          if !link then pure (some (resolved, backend))
          else do
            let (n, target) ← callDriver (linkDriver env) fun d => d.readSymlink backend (pathMaxLen - 1)
            if n ≤ 0 then pure (some (resolved, backend))
            else
              let target := bufferString (target.take n.toNat)
              if pathIsAbsolute target.val then followFrom env depth target
              else
                match pathResolve (bufferString (linkDirectory resolved)) target pathMaxLen with
                | none => pure none
                | some current => followFrom env depth (bufferString current)

def fileMaxSymlinkDepth : Nat := 8

def fileFollowLinks (env : Env σ) (input : CString) : FileM σ (Option (Path × Path)) :=
  if pathMaxLen ≤ input.val.length then pure none else followFrom env fileMaxSymlinkDepth input

/-! ## Queries -/

def fileExists (env : Env σ) (path : CString) : FileM σ Bool := do
  match ← fileFollowLinks env path with
  | none => pure false
  | some (_, backend) => callDriver (driverOf env) fun d => d.isPresent backend

def fileIsDir (env : Env σ) (path : CString) : FileM σ Bool := do
  match ← fileFollowLinks env path with
  | none => pure false
  | some (_, backend) => callDriver (driverOf env) fun d => d.isDir backend

def fileSize (env : Env σ) (path : CString) : FileM σ Int := do
  match ← fileFollowLinks env path with
  | none => pure (-1)
  | some (_, backend) => callDriver (driverOf env) fun d => d.fileSize backend

/-- `file_disk_space`: the total and the free bytes. -/
def fileDiskSpace (env : Env σ) (path : CString) : FileM σ (Option (Nat × Nat)) :=
  match pathResolve pathRootBytes path pathMaxLen with
  | none => pure none
  | some resolved => do
      let s ← Traced.reads id
      match findMountPoint s.mounts resolved with
      | none => pure none
      | some mountIdx => do
          let ok ← switchToMount env mountIdx
          if !ok then pure none
          else do
            let space ← callDriver (spaceDriver env) FsDriver.space
            pure (space.filter fun r => decide (0 < r.1))

/-! ## Access -/

def fileUacAllow (hooks : Hooks) (resolved : Path) (write : Bool) : Bool :=
  match hooks.uacAccess with
  | none => true
  | some access => access resolved write

def fileAllowed (hooks : Hooks) (resolved : Path) (write : Bool) : Bool :=
  fileUacAllow hooks resolved write && hooks.permCheck resolved write false

def efsHook (hooks : Hooks) (hook : Option (Path → List UInt8 → List UInt8)) (resolved : Path) :
    Option (List UInt8 → List UInt8) :=
  match hooks.efsIsEncrypted, hook with
  | some isEncrypted, some crypt => if isEncrypted resolved then some (crypt resolved) else none
  | _, _ => none

def drivePath (drive : UInt8) : CString := bufferString [drive, 0x3A, pathSeparator]

/-- `file_check_quota` and `file_get_quota` -/
def fileCheckQuota (env : Env σ) (hooks : Hooks) (drive : UInt8) (writeSize : Nat) : FileM σ Bool :=
  let upper := pathUpperDrive drive
  if upper < 0x41 ∨ 0x5A < upper then pure true
  else if hooks.quotaLimit upper = 0 then pure true
  else do
    let space ← fileDiskSpace env (drivePath upper)
    let used := match space with
      | some (total, free) => total - free
      | none => 0
    pure (decide ((used + writeSize) % 2 ^ 64 ≤ hooks.quotaLimit upper))

/-! ## The cache -/

def fileCacheKeySep : UInt8 := 0x1F

def fileCacheKeyMax : Nat := 512

def fileBuildCacheKey (mountPath relPath : Path) : Option Path :=
  if mountPath.isEmpty then none
  else if fileCacheKeyMax < mountPath.length + 1 + relPath.length + 1 then none
  else some (mountPath ++ fileCacheKeySep :: relPath)

def fileCacheRelativePath (cacheKey : Path) : Path :=
  match cacheKey.dropWhile (· != fileCacheKeySep) with
  | [] => cacheKey
  | _ :: relPath => relPath

def fileInvalidateCachedFile (env : Env σ) (relPath : Path) : FileM σ Unit := do
  let s ← Traced.reads id
  onCache (fsCacheInvalidatePath env.flushers (fileBuildCacheKey s.currentMountPath relPath))

def fsCacheInvalidateAll (env : Env σ) : FileM σ Unit :=
  onCache (fsCacheInvalidatePath env.flushers none)

/-- `cached_read_at`, while the file system `type` is the current one -/
def cachedReadAt (env : Env σ) (type : FsType) : Loader σ := fun path offset size x =>
  (driverOf env type).readFileAt (fileCacheRelativePath path) offset size x

/-! ## Reading and writing -/

def fileEfsScratchSize : Nat := 65536

/-- The part of `file_read_at` for an encrypted file: the raw bytes bypass the cache. -/
def fileReadDecrypted (env : Env σ) (decrypt : List UInt8 → List UInt8) (backend : Path)
    (offset size : UInt32) :
    FileM σ (Int × List UInt8) := do
  let s ← Traced.reads id
  let (rawLen, raw) ← onCache (callLoader (cachedReadAt env s.currentFs) backend 0 fileEfsScratchSize)
  if rawLen ≤ 0 then pure (-1, [])
  else
    let plain := decrypt (raw.take rawLen.toNat)
    if plain.isEmpty then pure (-1, [])
    else if plain.length ≤ offset.toNat then pure (0, [])
    else
      let size := if plain.length < (offset + size).toNat then plain.length - offset.toNat else size.toNat
      pure (FsCache.int32 size, (plain.drop offset.toNat).take size)

/-- `file_read_at`: the result, and the bytes in the buffer -/
def fileReadAt (env : Env σ) (hooks : Hooks) (path : CString) (offset size : UInt32) :
    FileM σ (Int × List UInt8) := do
  match ← fileFollowLinks env path with
  | none => pure (-1, [])
  | some (resolved, backend) =>
    if !fileAllowed hooks resolved false then pure (-1, [])
    else
      match efsHook hooks hooks.efsDecrypt resolved with
      | some decrypt => fileReadDecrypted env decrypt backend offset size
      | none => do
          let s ← Traced.reads id
          match fileBuildCacheKey s.currentMountPath backend with
          | none =>
            onCache (callLoader (cachedReadAt env s.currentFs) backend offset.toNat size.toNat)
          | some cacheKey =>
            onCache (fsCacheReadAt env.flushers (some cacheKey) offset true size
              (some (cachedReadAt env s.currentFs)))

def fileRead (env : Env σ) (hooks : Hooks) (path : CString) (size : UInt32) :
    FileM σ (Int × List UInt8) :=
  fileReadAt env hooks path 0 size

/-- The end of `file_write`: the driver writes the bytes `stored` for the caller's `size` bytes. -/
def fileWriteStored (env : Env σ) (backend : Path) (stored : List UInt8) (size : Nat) :
    FileM σ Int := do
  let written ← callDriver (driverOf env) fun d => d.writeFile backend stored
  if written < 0 then pure written
  else do
    fileInvalidateCachedFile env backend
    pure (FsCache.int32 size)

def fileWrite (env : Env σ) (hooks : Hooks) (path : CString) (data : List UInt8) : FileM σ Int := do
  match ← fileFollowLinks env path with
  | none => pure (-1)
  | some (resolved, backend) =>
    if !fileAllowed hooks resolved true then pure (-1)
    else do
      let room ← fileCheckQuota env hooks (resolved.headD 0) data.length
      if !room then pure (-1)
      else
        match efsHook hooks hooks.efsEncrypt resolved with
        | some encrypt =>
          let raw := encrypt data
          if raw.isEmpty || decide (fileEfsScratchSize < raw.length) then pure (-1)
          else fileWriteStored env backend raw data.length
        | none => fileWriteStored env backend data data.length

def fileDelete (env : Env σ) (hooks : Hooks) (path : CString) : FileM σ Bool := do
  match ← resolvePath env path with
  | none => pure false
  | some (resolved, backend) =>
    if !fileAllowed hooks resolved true then pure false
    else do
      let ok ← callDriver (driverOf env) fun d => d.delete backend
      if !ok then pure false
      else do
        fileInvalidateCachedFile env backend
        pure true

/-! ## Renaming -/

/-- The part of a round of `file_copy_regular` behind the first one that gets what the destination
holds. -/
def fileCopyExisting (env : Env σ) (hooks : Hooks) (dst : CString) (read : Nat) :
    FileM σ (Option (List UInt8)) := do
  let existing ← fileSize env dst
  if existing < 0 then pure none
  else do
    let room ← onMachine (env.kmalloc (existing.toNat + read))
    if !room then pure none
    else if existing = 0 then pure (some [])
    else do
      let (r, bytes) ← fileReadAt env hooks dst 0 (UInt32.ofNat existing.toNat)
      pure (if r = existing then some bytes else none)

/-- The loop of `file_copy_regular`; a round that goes on has read something.  The result of
`file_write` is taken as a truth value. -/
def fileCopyFrom (env : Env σ) (hooks : Hooks) (src dst : CString) (fsize : Nat) :
    Nat → Nat → FileM σ Bool
  | 0, _ => pure true
  | rounds + 1, offset =>
    if offset < fsize then do
      let chunk := min (fsize - offset) 65536
      let (rd, buf) ← fileReadAt env hooks src (UInt32.ofNat offset) (UInt32.ofNat chunk)
      if rd ≤ 0 then pure false
      else do
        match ← (if offset = 0 then pure (some []) else fileCopyExisting env hooks dst rd.toNat) with
        | none => pure false
        | some existing => do
            let wrote ← fileWrite env hooks dst (existing ++ buf.take rd.toNat)
            if wrote = 0 then pure false else fileCopyFrom env hooks src dst fsize rounds (offset + rd.toNat)
    else pure true

def fileCopyRegular (env : Env σ) (hooks : Hooks) (src dst : CString) : FileM σ Bool := do
  let fsize ← fileSize env src
  if fsize < 0 then pure false
  else do
    let room ← onMachine (env.kmalloc 65536)
    if !room then pure false else fileCopyFrom env hooks src dst fsize.toNat fsize.toNat 0

/-- The part of `file_rename` for two types of file systems. -/
def fileMove (env : Env σ) (hooks : Hooks) (oldpath newpath : CString)
    (oldResolved newResolved : Path) : FileM σ Bool := do
  let dir ← fileIsDir env oldpath
  if dir then pure false
  else do
    let taken ← fileExists env newpath
    if taken then pure false
    else do
      let copied ← fileCopyRegular env hooks (bufferString oldResolved) (bufferString newResolved)
      if !copied then pure false
      else do
        let deleted ← fileDelete env hooks (bufferString oldResolved)
        if !deleted then pure false
        else do
          fsCacheInvalidateAll env
          pure true

def fileRename (env : Env σ) (hooks : Hooks) (oldpath newpath : CString) : FileM σ Bool := do
  match ← resolvePath env oldpath with
  | none => pure false
  | some (oldResolved, oldBackend) => do
      let oldFs ← Traced.reads FileState.currentFs
      match ← resolvePath env newpath with
      | none => pure false
      | some (newResolved, newBackend) => do
          let newFs ← Traced.reads FileState.currentFs
          if !fileAllowed hooks oldResolved true || !fileAllowed hooks newResolved true then pure false
          else if oldFs ≠ newFs then fileMove env hooks oldpath newpath oldResolved newResolved
          else if !fileAllowed hooks oldResolved true then pure false
          else do
            let ok ← onMachine ((renameDriver env oldFs).rename oldBackend newBackend)
            if !ok then pure false
            else do
              fsCacheInvalidateAll env
              pure true

/-! ## Calls -/

inductive Call
  | write (path : CString) (data : Buffer)
  | delete (path : CString)
  | rename (oldpath newpath : CString)
  | read (path : CString) (size : UInt32)
  | readAt (path : CString) (offset size : UInt32)

/-- A truth value as an `int32_t`. -/
def truth (ok : Bool) : Int := if ok then 1 else 0

def perform (env : Env σ) (hooks : Hooks) : Call → FileM σ (Int × List UInt8)
  | .write path data => do
      let written ← fileWrite env hooks path data.val
      pure (written, [])
  | .delete path => do
      let ok ← fileDelete env hooks path
      pure (truth ok, [])
  | .rename oldpath newpath => do
      let ok ← fileRename env hooks oldpath newpath
      pure (truth ok, [])
  | .read path size => fileRead env hooks path size
  | .readAt path offset size => fileReadAt env hooks path offset size

def callStep (env : Env σ) (s : FileState σ) (call : Hooks × Call) : Option (FileState σ) :=
  some ((perform env call.1 call.2).state s)

end Monios.Model.FileCalls
