import Monios.Model.FileCalls

/-!
# The FAT32 driver under the file calls

The functions of `fs/fat32.c` that `lib/file.c` calls, on one disk.  A symbolic link is a file that
begins with a mark; the test for one reads it into a buffer that has room for the mark only.
-/

set_option autoImplicit false

namespace Monios.Model

open Monios.Library

def fat32SymlinkMagic : List UInt8 := ascii "MONIOSLNK:"

def fat32SymlinkBufSize : Nat := 320

/-- The separator of the paths inside the driver in place of that of the upper layer, and back. -/
def toBackendSeparator (ch : UInt8) : UInt8 := if ch = pathSeparator then 0x2F else ch

def fromBackendSeparator (ch : UInt8) : UInt8 := if ch = 0x2F then pathSeparator else ch

/-- `fat32_symlink`.  The loop leaves room for the mark and one more byte of the buffer. -/
def fat32Symlink (fuel : Nat) (target linkpath : List UInt8) : Fat32M Bool := do
  let s ← get
  if !s.ready then pure false
  else
    let copied := target.take (fat32SymlinkBufSize - 1 - fat32SymlinkMagic.length)
    let written ← fat32WriteFile fuel linkpath (fat32SymlinkMagic ++ copied.map toBackendSeparator)
    pure (decide (0 ≤ written))

def fat32IsSymlink (fuel : Nat) (path : List UInt8) : Fat32M Bool := do
  let s ← get
  if !s.ready then pure false
  else
    let (n, buf) ← fat32ReadFile fuel path fat32SymlinkMagic.length
    pure (decide ((fat32SymlinkMagic.length : Int) ≤ n) && buf.take fat32SymlinkMagic.length == fat32SymlinkMagic)

def fat32ReadSymlink (fuel : Nat) (path : List UInt8) (targetSize : Nat) :
    Fat32M (Int × List UInt8) := do
  let s ← get
  if !s.ready || targetSize == 0 then pure (-1, [])
  else
    let (n, buf) ← fat32ReadFile fuel path (fat32SymlinkBufSize - 1)
    if n < fat32SymlinkMagic.length then pure (-1, [])
    else if buf.take fat32SymlinkMagic.length ≠ fat32SymlinkMagic then pure (-1, [])
    else
      let length := n.toNat - fat32SymlinkMagic.length
      let copied := if length < targetSize - 1 then length else targetSize - 1
      let target := (buf.drop fat32SymlinkMagic.length).take copied
      pure (length, target.map fromBackendSeparator)

def fat32IsDir (fuel : Nat) (path : List UInt8) : Fat32M Bool := do
  let s ← get
  if !s.ready then pure false
  else if path = [] ∨ path = [0x2F] then pure true
  else
    match ← fat32ResolvePath fuel path with
    | none => pure false
    | some (_, slot) => pure slot.entry.isDirectory

def fat32SetAttr (fuel : Nat) (path : List UInt8) (attrMask attrValue : UInt8) : Fat32M Bool := do
  let s ← get
  if !s.ready then pure false
  else
    match ← fat32ResolvePath fuel path with
    | none => pure false
    | some (_, slot) =>
      change fat32ClearReadCache
      let attr := (slot.entry.attr &&& ~~~attrMask) ||| (attrValue &&& attrMask)
      fat32WriteSlot { slot with entry := slot.entry.setAttr attr }

/-- `fat32_write_volume`.  The source hands the sectors to the device in batches of at most 255. -/
def fat32WriteVolume (relLba : Nat) (buffer : List Sector) (s : Fat32) : Bool × Fat32 :=
  if !s.ready || buffer.isEmpty then (false, s)
  else (true, ataWriteSectors s (w32 (s.volumeLba + relLba)) buffer)

/-- The loop of `fat32_total_bytes`, with `n` more clusters to look at. -/
def fat32CountFree : Nat → Nat → Fat32M Nat
  | 0, _ => pure 0
  | n + 1, cluster => do
      let entry ← fat32GetFatEntry cluster
      let free ← fat32CountFree n (cluster + 1)
      pure (if entry = 0 then free + 1 else free)

/-- `fat32_total_bytes`: the total and the free bytes -/
def fat32TotalBytes : Fat32M (Option (Nat × Nat)) := do
  let s ← get
  if !s.ready || s.clusterCount == 0 then pure (some (0, 0))
  else
    let free ← fat32CountFree s.clusterCount 2
    let clusterBytes := s.bpb.sectorsPerCluster * s.bpb.bytesPerSector
    pure (some (s.clusterCount * clusterBytes, free * clusterBytes))

namespace FileCalls

/-- A function of the driver, with what is returned in its place where the fuel runs out. -/
def fatRun {α : Type} (failed : α) (m : Fat32M α) (s : Fat32) : α × Fat32 := (m s).getD (failed, s)

def fatDriver (fuel : Nat) : FsDriver Fat32 where
  isSymlink path := fatRun false (fat32IsSymlink fuel path)
  readSymlink path size := fatRun (-1, []) (fat32ReadSymlink fuel path size)
  isPresent path := fatRun false (fat32Exists fuel path)
  isDir path := fatRun false (fat32IsDir fuel path)
  fileSize path := fatRun (-1) (fat32FileSize fuel path)
  readFileAt path offset size s :=
    let ((n, bytes), s) := fatRun (-1, []) (fat32ReadFileAt fuel path offset size) s
    (n, bytes, s)
  writeFile path data := fatRun (-1) (fat32WriteFile fuel path data)
  delete path := fatRun false (fat32Delete fuel path)
  rename oldpath newpath := fatRun false (fat32Rename fuel oldpath newpath)
  space := fatRun none fat32TotalBytes

def fatEnv (fuel : Nat) : Env Fat32 where
  driver type := if type = .fat32 then fatDriver fuel else FsDriver.absent
  init type partition _ s := if type = .fat32 then fat32Init partition s else (false, s)
  kmalloc _ s := (true, s)
  flushers _ _ _ _ s := (-1, s)

end FileCalls

end Monios.Model
