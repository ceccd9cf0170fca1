import Monios.Model.FileCalls

/-!
# Operations that change files

The calls of `lib/file.c` that create, remove and change files and directories: besides those of
`FileCalls` the ones on directories, attributes and links, the recycle bin, which works through the
other calls, and the backup of a volume.

The index of the recycle bin is a file of records of 320 bytes.  What the registry and the clock
answer during one call is data.
-/

set_option autoImplicit false

namespace Monios.Model.FileOperations

open Monios.Library Monios.Model.FsCache Monios.Model.FileCalls

variable {σ : Type}

structure OperationsEnv (σ : Type) extends Env σ where
  mkdir : FsType → Path → σ → Bool × σ
  rmdir : FsType → Path → σ → Bool × σ
  listDir : FsType → Path → Nat → σ → (Bool × List UInt8) × σ
  fat32SetAttr : Path → UInt8 → UInt8 → σ → Bool × σ
  fat32Symlink : CString → Path → σ → Bool × σ
  fat32AppendOpen : Path → σ → Int × σ
  fat32AppendWrite : List UInt8 → σ → Int × σ
  fat32AppendClose : σ → Int × σ
  /-- the number of sectors, for `fat32_volume_geometry` -/
  fat32VolumeGeometry : σ → Option Nat × σ
  fat32WriteVolume : UInt32 → UInt32 → List UInt8 → σ → Bool × σ

/-- `cmos_time_t` -/
structure CmosTime where
  year : UInt16
  month : UInt8
  day : UInt8

structure Settings where
  maxSizeMb : Option CString := none
  maxAgeDays : Option CString := none
  now : CmosTime

variable (env : OperationsEnv σ) (hooks : Hooks) (settings : Settings)

/-! ## Directories, attributes and links -/

/-- The part that `file_mkdir` and `file_rmdir` share, `work` being what the drivers do. -/
def fileDirectory (work : FsType → Path → σ → Bool × σ) (path : CString) : FileM σ Bool := do
  match ← resolvePath env.toEnv path with
  | none => pure false
  | some (resolved, backend) =>
    if !fileAllowed hooks resolved true then pure false
    else do
      let type ← Traced.reads FileState.currentFs
      if type = .none then pure false
      else do
        let ok ← onMachine (work type backend)
        if !ok then pure false
        else do
          fsCacheInvalidateAll env.toEnv
          pure true

def fileMkdir (path : CString) : FileM σ Bool := fileDirectory env hooks env.mkdir path

def fileRmdir (path : CString) : FileM σ Bool := fileDirectory env hooks env.rmdir path

def fileSetAttr (path : CString) (attrMask attrValue : UInt8) : FileM σ Bool := do
  match ← resolvePath env.toEnv path with
  | none => pure false
  | some (resolved, backend) =>
    if !fileAllowed hooks resolved true then pure false
    else do
      let type ← Traced.reads FileState.currentFs
      if type = .fat32 then onMachine (env.fat32SetAttr backend attrMask attrValue) else pure false

def fileSymlink (target linkpath : CString) : FileM σ Bool := do
  match ← resolvePath env.toEnv linkpath with
  | none => pure false
  | some (_, backend) => do
      let type ← Traced.reads FileState.currentFs
      if type = .fat32 then onMachine (env.fat32Symlink target backend) else pure false

/-- `file_list_dir`: the result and the text in the buffer -/
def fileListDir (path : CString) (bufferSize : Nat) : FileM σ (Bool × List UInt8) := do
  match ← resolvePath env.toEnv path with
  | none => pure (false, [])
  | some (resolved, backend) =>
    if !fileUacAllow hooks resolved false then pure (false, [])
    else do
      let type ← Traced.reads FileState.currentFs
      if type = .none then pure (false, []) else onMachine (env.listDir type backend bufferSize)

/-! ## Paths of the recycle bin -/

def fileRecycleBufSize : Nat := 65536

def fileRecyclePath (drive : UInt8) : CString :=
  bufferString ([pathUpperDrive drive, 0x3A, pathSeparator] ++ ascii "$RECYCLE.BIN")

def fileBasenameOf (path : List UInt8) : List UInt8 :=
  (path.reverse.takeWhile (· != pathSeparator)).reverse

/-- `file_join_path` into a buffer of `PATH_MAX_LEN` bytes -/
def fileJoinPath (dir name : CString) : CString :=
  let out := dir.val.take (pathMaxLen - 1)
  let out := if 3 < out.length ∧ out.getLast? ≠ some pathSeparator ∧ out.length + 1 < pathMaxLen then
      out ++ [pathSeparator]
    else out
  let out := if out.length + name.val.length + 1 < pathMaxLen then out ++ name.val else out
  bufferString out

def nameDot (base : List UInt8) : Option Nat :=
  let behind := base.reverse.takeWhile (· != 0x2E)
  let dot := base.length - behind.length - 1
  if base.contains 0x2E ∧ dot ≠ 0 then some dot else none

def nameStem (base : List UInt8) : List UInt8 :=
  (base.take ((nameDot base).getD base.length)).take 39

def nameExtension (base : List UInt8) : List UInt8 := base.drop ((nameDot base).getD base.length)

def numberedName (stem ext : List UInt8) (suffix : Nat) : List UInt8 :=
  (stem ++ ascii "(" ++ ascii (toString suffix) ++ ascii ")" ++ ext).take 63

def firstFree (path : Nat → CString) : Nat → Nat → FileM σ (Option CString)
  | 0, _ => pure none
  | rounds + 1, suffix => do
      let taken ← fileExists env.toEnv (path suffix)
      if taken then firstFree path rounds (suffix + 1) else pure (some (path suffix))

/-- The path itself when there is nothing at it, else the first free one of 999 numbered ones. -/
def freePath (path : CString) (numbered : Nat → CString) : FileM σ (Option CString) := do
  let taken ← fileExists env.toEnv path
  if taken then firstFree env numbered 999 1 else pure (some path)

/-! ## The index of the recycle bin -/

def recycleIndexMax : Nat := 128

/-- `sizeof(recycle_entry_t)` -/
def recycleEntrySize : Nat := 320

/-- The bytes of a `recycle_entry_t`. -/
abbrev RecycleEntry := List UInt8

namespace RecycleEntry

def recycledName (entry : RecycleEntry) : CString := bufferString entry

def originalPath (entry : RecycleEntry) : CString := bufferString (entry.drop 40)

def days (entry : RecycleEntry) : Nat := readU32 entry 304 + 2 ^ 32 * readU32 entry 308

def size (entry : RecycleEntry) : Nat := readU32 entry 312

/-- A string in a field of `n` bytes that has been cleared. -/
def field (n : Nat) (text : List UInt8) : List UInt8 :=
  text.take (n - 1) ++ List.replicate (n - (text.take (n - 1)).length) 0

def new (recycledName originalPath : List UInt8) (days size : Nat) : RecycleEntry :=
  field 40 recycledName ++ field 260 originalPath ++ List.replicate 4 0 ++ le32 days ++ le32 (days / 2 ^ 32) ++ le32 size ++
    List.replicate 4 0

end RecycleEntry

def recycleIndexPath : CString := bufferString (ascii "C:\\Monios\\System\\recycle.idx")

/-- A year of the loop of `recycle_now_days`. -/
def recycleYearDays (year : Nat) : Nat := if year % 4 = 0 then 366 else 365

/-- A month of the loop of `recycle_now_days`, counted from 0. -/
def recycleMonthDays (year month : Nat) : Nat :=
  if month = 1 ∧ year % 4 = 0 then 29 else [31, 28, 31, 30, 31, 30, 31, 31, 30, 31, 30, 31].getD month 0

def recycleNowDays (t : CmosTime) : Nat :=
  let year := max t.year.toNat 2026
  let month := max 1 (min t.month.toNat 12)
  let day := max 1 t.day.toNat
  ((List.range (year - 2026)).map fun i => recycleYearDays (2026 + i)).sum +
    ((List.range (month - 1)).map (recycleMonthDays year)).sum + (day - 1)

/-- The number that a text begins with, when it is above 0 and at most `limit`, else `default`. -/
def recycleSetting (text : Option CString) (limit default : UInt32) : UInt32 :=
  match text with
  | none => default
  | some text =>
    let digits := text.val.takeWhile fun b => decide (0x30 ≤ b ∧ b ≤ 0x39)
    let n := digits.foldl (fun n b => n * 10 + (b - 0x30).toUInt32) 0
    if 0 < n ∧ n ≤ limit then n else default

def recycleMaxSizeMb : UInt32 := recycleSetting settings.maxSizeMb 4096 64

def recycleMaxAgeDays : UInt32 := recycleSetting settings.maxAgeDays 3650 30

def recycleIndexLoad : FileM σ (List RecycleEntry) := do
  let there ← fileExists env.toEnv recycleIndexPath
  if !there then pure []
  else do
    let (n, bytes) ← FileCalls.fileRead env.toEnv hooks recycleIndexPath (UInt32.ofNat (recycleIndexMax * recycleEntrySize))
    if n ≤ 0 then pure []
    else
      let count := min (n.toNat / recycleEntrySize) recycleIndexMax
      pure ((List.range count).map fun i => slice bytes (i * recycleEntrySize) recycleEntrySize)

def recycleIndexSave (entries : List RecycleEntry) : FileM σ Bool :=
  if entries.isEmpty then do
    let _ ← fileWrite env.toEnv hooks recycleIndexPath []
    pure true
  else do
    let written ← fileWrite env.toEnv hooks recycleIndexPath entries.flatten
    pure (decide (written = (entries.length * recycleEntrySize : Nat)))

def fileRecycleRecord (recycledName originalPath : CString) (size : UInt32) : FileM σ Unit := do
  let entries ← recycleIndexLoad env hooks
  let entries := if recycleIndexMax ≤ entries.length then entries.drop 1 else entries
  let entry := RecycleEntry.new recycledName.val originalPath.val (recycleNowDays settings.now) size.toNat
  let _ ← recycleIndexSave env hooks (entries ++ [entry])
  pure ()

def recycleDeleteFile (drive : UInt8) (recycledName : CString) : FileM σ Unit := do
  let _ ← fileDelete env.toEnv hooks (fileJoinPath (fileRecyclePath drive) recycledName)
  pure ()

/-- The first loop of `file_recycle_maintenance`: the entries that are not too old. -/
def recyclePurge (drive : UInt8) : List RecycleEntry → FileM σ (List RecycleEntry)
  | [] => pure []
  | entry :: entries =>
    let now := recycleNowDays settings.now
    if entry.days ≤ now ∧ (recycleMaxAgeDays settings).toNat < (now - entry.days) % 2 ^ 32 then do
      recycleDeleteFile env hooks drive entry.recycledName
      recyclePurge drive entries
    else do
      let kept ← recyclePurge drive entries
      pure (entry :: kept)

def oldestIndex (entries : List RecycleEntry) : Nat :=
  (List.range entries.length).foldl (fun oldest i =>
    if (entries.getD i []).days < (entries.getD oldest []).days then i else oldest) 0

/-- The second loop of `file_recycle_maintenance`: the oldest entries go while the files together
are too large. -/
def recycleCap (drive : UInt8) (maxBytes : Nat) :
    Nat → List RecycleEntry → Nat → FileM σ (List RecycleEntry)
  | 0, entries, _ => pure entries
  | rounds + 1, entries, liveTotal =>
    if maxBytes < liveTotal ∧ entries ≠ [] then do
      let oldest := entries.getD (oldestIndex entries) []
      recycleDeleteFile env hooks drive oldest.recycledName
      recycleCap drive maxBytes rounds (entries.set (oldestIndex entries) (entries.getLastD [])).dropLast
        (liveTotal - oldest.size)
    else pure entries

def fileRecycleMaintenance (drive : UInt8) : FileM σ Unit := do
  let entries ← recycleIndexLoad env hooks
  if entries.isEmpty then pure ()
  else do
    let kept ← recyclePurge env hooks settings drive entries
    let maxBytes := (recycleMaxSizeMb settings).toNat * 1024 * 1024 % 2 ^ 32
    let kept ← recycleCap env hooks drive maxBytes kept.length kept (kept.map RecycleEntry.size).sum
    let _ ← recycleIndexSave env hooks kept
    pure ()

/-! ## The recycle bin -/

def recycleDirectory (drive : UInt8) : FileM σ (Option CString) := do
  let dir := fileRecyclePath drive
  let there ← fileExists env.toEnv dir
  let _ ← (if there then pure true else fileMkdir env hooks dir)
  let ok ← fileIsDir env.toEnv dir
  pure (if ok then some dir else none)

/-- The file is read into `g_recycle_buf` and written to another path; its size. -/
def recycleCopy (src dst : CString) : FileM σ (Option Nat) := do
  let size ← fileSize env.toEnv src
  if size ≤ 0 ∨ (fileRecycleBufSize : Int) < size then pure none
  else do
    let (n, bytes) ← FileCalls.fileRead env.toEnv hooks src (UInt32.ofNat size.toNat)
    if n ≠ size then pure none
    else do
      let written ← fileWrite env.toEnv hooks dst (bytes.take size.toNat)
      pure (if written = size then some size.toNat else none)

/-- The end of `file_send_to_recycle_bin`, for the path in the bin. -/
def recycleInto (resolved candidate : CString) : FileM σ Bool := do
  match ← recycleCopy env hooks resolved candidate with
  | none => pure false
  | some size => do
      let deleted ← fileDelete env.toEnv hooks resolved
      if !deleted then do
        let _ ← fileDelete env.toEnv hooks candidate
        pure false
      else do
        fileRecycleRecord env hooks settings (bufferString (fileBasenameOf candidate.val)) resolved (UInt32.ofNat size)
        fileRecycleMaintenance env hooks settings (resolved.val.headD 0)
        pure true

def fileSendToRecycleBin (path : CString) : FileM σ Bool := do
  match ← resolvePath env.toEnv path with
  | none => pure false
  | some (resolved, _) => do
      let resolved := bufferString resolved
      let dir ← fileIsDir env.toEnv resolved
      if dir then pure false
      else do
        match ← recycleDirectory env hooks (resolved.val.headD 0) with
        | none => pure false
        | some recycleDir => do
            let base := fileBasenameOf resolved.val
            let numbered := fun suffix =>
              fileJoinPath recycleDir (bufferString (numberedName (nameStem base) (nameExtension base) suffix))
            match ← freePath env (fileJoinPath recycleDir (bufferString base)) numbered with
            | none => pure false
            | some candidate => recycleInto env hooks settings resolved candidate

def fileRestoreFromRecycleBin (recycledPath originalPath : CString) : FileM σ Bool := do
  let taken ← fileExists env.toEnv originalPath
  if taken then pure false
  else do
    match ← recycleCopy env hooks recycledPath originalPath with
    | none => pure false
    | some _ => fileDelete env.toEnv hooks recycledPath

def recycleNames (listing : List UInt8) : List (List UInt8 × Bool) :=
  ((listing.takeWhile (· != 0)).splitOn 0x0A).filterMap fun line =>
    let name := line.take 63
    let isDir := name.getLast? == some pathSeparator
    let name := if isDir then name.dropLast else name
    if name.isEmpty then none else some (name, isDir)

/-- The loop of `file_walk_recycle`. -/
def walkFrom (dir : CString) (fn : CString → Bool → FileM σ Unit) :
    List (List UInt8 × Bool) → FileM σ Unit
  | [] => pure ()
  | (name, isDir) :: names => do
      fn (fileJoinPath dir (bufferString name)) isDir
      walkFrom dir fn names

def fileWalkRecycle (drive : UInt8) (fn : CString → Bool → FileM σ Unit) : FileM σ Unit := do
  let dir := fileRecyclePath drive
  let ok ← fileIsDir env.toEnv dir
  if !ok then pure ()
  else do
    let (listed, text) ← fileListDir env hooks dir 2048
    if !listed then pure () else walkFrom dir fn (recycleNames text)

def fileEmptyRecycleEntry (full : CString) (isDir : Bool) : FileM σ Unit := do
  let _ ← (if isDir then fileRmdir env hooks full else fileDelete env.toEnv hooks full)
  pure ()

def fileEmptyRecycleBin (drive : UInt8) : FileM σ Bool := do
  fileWalkRecycle env hooks drive (fileEmptyRecycleEntry env hooks)
  pure true

/-- The loop of `file_recycle_restore_by_name` over the numbers, which writes the name with the
number over the old one.  The extension is read where it was in the path at first, and not where it
has been moved to. -/
def restoreTarget (dir : Nat) (stem : List UInt8) (dot : Option Nat) :
    Nat → Nat → List UInt8 → FileM σ (List UInt8)
  | 0, _, target => pure target
  | rounds + 1, suffix, target => do
      let ext := match dot with
        | some dot => (bufferString (target.drop (dir + dot))).val
        | none => []
      let name := numberedName stem ext suffix ++ [0]
      let target := target.take dir ++ name ++ target.drop (dir + name.length)
      let taken ← fileExists env.toEnv (bufferString target)
      if taken then restoreTarget dir stem dot rounds (suffix + 1) target else pure target

def restorePath (entry : RecycleEntry) : FileM σ CString := do
  let original := bufferString (entry.originalPath.val.take (pathMaxLen - 1))
  let taken ← fileExists env.toEnv original
  if !taken then pure original
  else do
    let base := fileBasenameOf original.val
    let target := original.val ++ List.replicate (pathMaxLen - original.val.length) 0
    let target ← restoreTarget env (original.val.length - base.length) (nameStem base) (nameDot base) 999 1 target
    pure (bufferString target)

def fileRecycleRestoreByName (recycledName : CString) : FileM σ Int := do
  let entries ← recycleIndexLoad env hooks
  match entries.find? fun e => e.recycledName = recycledName with
  | none => pure (-1)
  | some entry => do
      let recycledFull := fileJoinPath (fileRecyclePath (entry.originalPath.val.headD 0)) recycledName
      let there ← fileExists env.toEnv recycledFull
      if !there then pure (-2)
      else do
        let target ← restorePath env entry
        let restored ← fileRestoreFromRecycleBin env hooks recycledFull target
        if !restored then pure (-3)
        else do
          let entries ← recycleIndexLoad env hooks
          let _ ← recycleIndexSave env hooks (entries.filter fun e => decide (e.recycledName ≠ recycledName))
          pure 0

/-! ## Backups -/

def whenFat32 (work : FileM σ Int) : FileM σ Int := do
  let type ← Traced.reads FileState.currentFs
  if type ≠ .fat32 then pure (-1) else work

def fileBackupBegin (imagePath : CString) : FileM σ Int := whenFat32 do
  match ← fileFollowLinks env.toEnv imagePath with
  | none => pure (-2)
  | some (_, backend) => do
      let opened ← onMachine (env.fat32AppendOpen backend)
      if opened < 0 then pure (-3)
      else do
        match ← onMachine env.fat32VolumeGeometry with
        | none => do
            let _ ← onMachine env.fat32AppendClose
            pure (-4)
        | some total => pure total

def fileBackupAppend (data : List UInt8) : FileM σ Int :=
  whenFat32 (if data.isEmpty then pure (-1) else onMachine (env.fat32AppendWrite data))

def fileBackupEnd : FileM σ Int := whenFat32 (onMachine env.fat32AppendClose)

def fileBackupWriteSrc (relLba sectors : UInt32) (data : List UInt8) : FileM σ Int :=
  whenFat32 (if sectors = 0 then pure (-1) else do
    let ok ← onMachine (env.fat32WriteVolume relLba sectors data)
    pure (if ok then 0 else -2))

/-! ## Operations -/

inductive Operation
  | write (path : CString) (data : Buffer)
  | delete (path : CString)
  | rename (oldpath newpath : CString)
  | mkdir (path : CString)
  | rmdir (path : CString)
  | setAttr (path : CString) (attrMask attrValue : UInt8)
  | symlink (target linkpath : CString)
  | sendToRecycleBin (path : CString)
  | restoreFromRecycleBin (recycledPath originalPath : CString)
  | emptyRecycleBin (drive : UInt8)
  | recycleRecord (recycledName originalPath : CString) (size : UInt32)
  | recycleMaintenance (drive : UInt8)
  | recycleRestoreByName (recycledName : CString)
  | backupBegin (imagePath : CString)
  | backupAppend (data : Buffer)
  | backupEnd
  | backupWriteSrc (relLba sectors : UInt32) (data : List UInt8)

def performOperation : Operation → FileM σ Int
  | .write path data => fileWrite env.toEnv hooks path data.val
  | .delete path => truth <$> fileDelete env.toEnv hooks path
  | .rename oldpath newpath => truth <$> fileRename env.toEnv hooks oldpath newpath
  | .mkdir path => truth <$> fileMkdir env hooks path
  | .rmdir path => truth <$> fileRmdir env hooks path
  | .setAttr path attrMask attrValue => truth <$> fileSetAttr env hooks path attrMask attrValue
  | .symlink target linkpath => truth <$> fileSymlink env target linkpath
  | .sendToRecycleBin path => truth <$> fileSendToRecycleBin env hooks settings path
  | .restoreFromRecycleBin recycledPath originalPath =>
    truth <$> fileRestoreFromRecycleBin env hooks recycledPath originalPath
  | .emptyRecycleBin drive => truth <$> fileEmptyRecycleBin env hooks drive
  | .recycleRecord recycledName originalPath size => do
      fileRecycleRecord env hooks settings recycledName originalPath size
      pure 0
  | .recycleMaintenance drive => do
      fileRecycleMaintenance env hooks settings drive
      pure 0
  | .recycleRestoreByName recycledName => fileRecycleRestoreByName env hooks recycledName
  | .backupBegin imagePath => fileBackupBegin env imagePath
  | .backupAppend data => fileBackupAppend env data.val
  | .backupEnd => fileBackupEnd env
  | .backupWriteSrc relLba sectors data => fileBackupWriteSrc env relLba sectors data

end Monios.Model.FileOperations
