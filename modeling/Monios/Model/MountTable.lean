import Mathlib.Data.List.DropRight
import Monios.Model.FileCalls

/-!
# The mount table

The part of `lib/file.c` that mounts and unmounts: `file_mount`, `file_umount` and
`file_map_network_drive`.  The init routines of the drivers, `extfs_sync` and `netfs_init` work on
the machine `σ`, and may do and return anything.

A string that is `NULL` is an empty one, which the calls refuse as well.
-/

set_option autoImplicit false

namespace Monios.Model.MountTable

open Monios.Library Monios.Model.FsCache Monios.Model.FileCalls

variable {σ : Type}

def maxMountPath : Nat := 128

/-- `net_mapping_t` -/
structure NetMapping where
  used : Bool := false
  host : Path := []
  port : UInt16 := 0
  share : Path := []

/-- The globals of `file.c` with `g_mount_count` and `g_net_map`. -/
structure MountState (σ : Type) extends FileState σ where
  mountCount : Int
  netMap : Fin 26 → NetMapping

structure MountEnv (σ : Type) extends Env σ where
  extfsSync : σ → Bool × σ
  netfsInit : CString → UInt16 → CString → σ → Bool × σ

abbrev MountM (σ α : Type) : Type := Traced (MountState σ) FlusherCall α

/-- The calls of `file.c` that know nothing of the count. -/
def onFile {α : Type} (m : FileM σ α) : MountM σ α := fun s =>
  (m.result s.toFileState, { s with toFileState := m.state s.toFileState }, m.log s.toFileState)

def fsTypeFromName (name : CString) : FsType :=
  if name.val ∈ [ascii "fat16", ascii "FAT16"] then .fat16
  else if name.val ∈ [ascii "fat32", ascii "FAT32"] then .fat32
  else if name.val ∈ [ascii "iso9660", ascii "ISO9660", ascii "cdrom", ascii "CDROM"] then .iso9660
  else if name.val ∈ [ascii "ntfs", ascii "NTFS"] then .ntfs
  else if name.val ∈ [ascii "ext", ascii "ext2", ascii "ext3", ascii "ext4", ascii "extfs", ascii "EXTFS"] then .extfs
  else if name.val ∈ [ascii "netfs", ascii "network", ascii "smb", ascii "NETFS"] then .netfs
  else .none

/-- The loop at the end of `normalize_mount_path`. -/
def stripSeparators (path : Path) : Path :=
  path.take 3 ++ (path.drop 3).rdropWhile (· == pathSeparator)

def normalizeMountPath (input : CString) : Option Path :=
  if input.val.isEmpty then none
  else
    match pathResolve ⟨[], zero_notMem_nil⟩ input pathMaxLen with
    | none => none
    | some resolved =>
      if resolved.isEmpty || decide (maxMountPath ≤ resolved.length) || decide (resolved.getD 0 0 < 0x41) ||
          decide (0x5A < resolved.getD 0 0) || resolved.getD 1 0 != 0x3A || resolved.getD 2 0 != pathSeparator then none
      else some (stripSeparators resolved)

/-- `set_current_mount(NULL)` -/
def unsetCurrentMount (s : MountState σ) : MountState σ :=
  { s with currentFs := .none, currentMountPath := [], currentMountPartition := -1, currentBlockdev := -1 }

def restoreCurrentMount (env : MountEnv σ) (fs : FsType) (partition blockdev : Int)
    (mountPath : Path) : MountM σ Bool :=
  if fs = .none || mountPath.isEmpty then pure false
  else do
    let ok ← onFile (FileCalls.fsInitByType env.toEnv fs partition blockdev)
    if !ok then pure false
    else do
      Traced.modifies fun s => { s with currentFs := fs, currentMountPartition := partition, currentBlockdev := blockdev,
                                        currentMountPath := mountPath }
      pure true

/-- The loop that looks for a free entry, which `emptyIdx` is: `none` when the path is mounted. -/
def findEmpty (mounts : Fin 8 → Mount) (path : Path) :
    List (Fin 8) → Option (Fin 8) → Option (Option (Fin 8))
  | [], emptyIdx => some emptyIdx
  | i :: is, emptyIdx =>
    if (mounts i).mounted && (mounts i).path == path then none
    else if !(mounts i).mounted && emptyIdx.isNone then findEmpty mounts path is (some i)
    else findEmpty mounts path is emptyIdx

def addMount (i : Fin 8) (mount : Mount) (s : MountState σ) : MountState σ :=
  { s with mounts := Function.update s.mounts i mount, mountCount := s.mountCount + 1 }

/-- `file_mount`, while `probeBlockdev` is `g_probe_blockdev`. -/
def fileMount (env : MountEnv σ) (probeBlockdev : Int) (mountPath fsType : CString)
    (partition : Int) : MountM σ Bool :=
  match normalizeMountPath mountPath with
  | none => pure false
  | some normalized =>
    let type := fsTypeFromName fsType
    if type = .none then pure false
    else do
      let s ← Traced.reads id
      let restore : MountM σ Bool :=
        if s.currentFs ≠ .none ∧ s.currentMountPath ≠ [] then
          restoreCurrentMount env s.currentFs s.currentMountPartition s.currentBlockdev s.currentMountPath
        else pure false
      match findEmpty s.mounts normalized (List.finRange 8) none with
      | none => pure false
      | some none => pure false
      | some (some emptyIdx) => do
          let ok ← onFile (FileCalls.fsInitByType env.toEnv type partition probeBlockdev)
          if !ok then do
            let _ ← restore
            pure false
          else do
            let mount : Mount := ⟨⟨true, type, partition, probeBlockdev⟩, normalized⟩
            Traced.modifies (addMount emptyIdx mount)
            let count ← Traced.reads MountState.mountCount
            let _ ← (if count = 1 ∨ normalized = pathRootBytes.val then do
                onFile (Traced.modifies (FileCalls.setCurrentMount mount))
                pure true
              else restore)
            onFile (fsCacheInvalidateAll env.toEnv)
            pure true

def fileSyncAll (env : MountEnv σ) : MountM σ Bool := do
  let _ ← onFile (onCache (fsCacheFlush env.flushers))
  let extOk ← onFile (onMachine env.extfsSync)
  onFile (fsCacheInvalidateAll env.toEnv)
  let dirty ← Traced.reads fun s => s.cache.dirtyCount
  pure (extOk && decide (dirty = 0))

/-- The loop of `file_umount` that makes another mount point the current one. -/
def activateFrom (env : MountEnv σ) : List (Fin 8) → MountM σ Bool
  | [] => pure false
  | j :: js => do
      let mount ← Traced.reads fun s => s.mounts j
      if mount.mounted then do
        let activated ← restoreCurrentMount env mount.fsType mount.partition mount.blockdevIndex mount.path
        if activated then pure true else activateFrom env js
      else activateFrom env js

def unmounted (mount : Mount) : Mount :=
  { mount with mounted := false, fsType := .none, path := [] }

def removeMount (i : Fin 8) (s : MountState σ) : MountState σ :=
  { s with mounts := Function.update s.mounts i (unmounted (s.mounts i)), mountCount := s.mountCount - 1 }

def fileUmount (env : MountEnv σ) (mountPath : CString) : MountM σ Bool :=
  match normalizeMountPath mountPath with
  | none => pure false
  | some normalized => do
      let mounts ← Traced.reads fun s => s.mounts
      match (List.finRange 8).find? fun i => (mounts i).mounted && (mounts i).path == normalized with
      | none => pure false
      | some i => do
          let ok ← fileSyncAll env
          if !ok then pure false
          else do
            Traced.modifies (removeMount i)
            let s ← Traced.reads id
            let _ ← (if s.currentMountPath = normalized then do
                let activated ← (if s.mountCount > 0 then activateFrom env (List.finRange 8) else pure false)
                if !activated then Traced.modifies unsetCurrentMount else pure ()
              else pure ())
            onFile (fsCacheInvalidateAll env.toEnv)
            pure true

def driveUpper (drive : UInt8) : UInt8 :=
  if 0x61 ≤ drive ∧ drive ≤ 0x7A then drive - 0x61 + 0x41 else drive

def netfsDefaultPort : UInt16 := 445

def fileNetAlreadyMapped (netMap : Fin 26 → NetMapping) : Bool :=
  (List.finRange 26).any fun i => (netMap i).used

/-- The index of a drive in `g_net_map`. -/
def netIndex (upper : UInt8) : Option (Fin 26) :=
  if h : 0x41 ≤ upper.toNat ∧ upper.toNat ≤ 0x5A then some ⟨upper.toNat - 0x41, by omega⟩ else none

def fileMapNetworkDrive (env : MountEnv σ) (drive : UInt8) (server : CString) (port : UInt16)
    (share : CString) :
    MountM σ Bool :=
  let upper := driveUpper drive
  match netIndex upper with
  | none => pure false
  | some net =>
    if server.val.isEmpty || share.val.isEmpty then pure false
    else do
      let s ← Traced.reads id
      if (s.netMap net).used then pure false
      else if fileNetAlreadyMapped s.netMap then pure false
      else
        let mountPath : Path := [upper, 0x3A, pathSeparator]
        match findEmpty s.mounts mountPath (List.finRange 8) none with
        | none => pure false
        | some none => pure false
        | some (some emptyIdx) => do
            let ok ← onFile (onMachine (env.netfsInit server port share))
            if !ok then pure false
            else do
              Traced.modifies (addMount emptyIdx
                ⟨{ s.mounts emptyIdx with mounted := true, fsType := .netfs, partition := -1 }, mountPath⟩)
              Traced.modifies fun s => { s with
                netMap := Function.update s.netMap net
                  ⟨true, server.val.take 63, if port = 0 then netfsDefaultPort else port, share.val.take 63⟩ }
              onFile (fsCacheInvalidateAll env.toEnv)
              pure true

inductive MountCall
  | mount (probeBlockdev : Int) (mountPath fsType : CString) (partition : Int)
  | umount (mountPath : CString)
  | mapNetworkDrive (drive : UInt8) (server : CString) (port : UInt16) (share : CString)

def mountCall (env : MountEnv σ) : MountCall → MountM σ Bool
  | .mount probeBlockdev mountPath fsType partition => fileMount env probeBlockdev mountPath fsType partition
  | .umount mountPath => fileUmount env mountPath
  | .mapNetworkDrive drive server port share => fileMapNetworkDrive env drive server port share

def runCalls (env : MountEnv σ) : List MountCall → MountState σ → MountState σ
  | [], s => s
  | call :: calls, s => runCalls env calls ((mountCall env call).state s)

/-- The state that `file_init` leaves, with the cache as `fs_cache_init` leaves it. -/
def fileInit (machine : σ) : MountState σ where
  cache := { machine := machine }
  mounts := fun _ => ⟨⟨false, .none, -1, -1⟩, []⟩
  currentFs := .none
  currentMountPath := []
  currentMountPartition := -1
  currentBlockdev := -1
  mountCount := 0
  netMap := fun _ => {}

end Monios.Model.MountTable
