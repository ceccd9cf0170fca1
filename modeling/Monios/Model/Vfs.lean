import Monios.Model.Extfs.File
import Monios.Model.Fat32.File

/-!
# Mount points

The part of `lib/file.c` that decides which driver works on which volume: the mount table,
`switch_to_mount` and the hints by which `fat32_init` and `extfs_init` find their volume.
There is one instance of each driver; a switch to another mount runs its init routine again.

A block device index stands for a physical disk, and a negative one for the primary ATA disk;
`device` says which.  The drivers for FAT16, ISO 9660, NTFS and the network file system only
read when they look for their volume, and are here no more than the answer whether they found
it.  The paths of the mount points and the cache of file contents above the drivers are left out.
-/

set_option autoImplicit false

namespace Monios.Model

open Monios.Library

/-- `fs_type_t` -/
inductive FsType
  | none
  | fat32
  | fat16
  | iso9660
  | ntfs
  | extfs
  | netfs
  deriving DecidableEq

/-- `mount_point_t` -/
structure MountPoint where
  mounted : Bool
  fsType : FsType
  partition : Int
  blockdevIndex : Int
  deriving DecidableEq

/-- The globals of `file.c`, the two drivers, and the disks. -/
structure Vfs where
  disks : Nat → Nat → Sector
  device : Int → Nat
  /-- `g_mount_points` -/
  mounts : Fin 8 → MountPoint
  /-- `g_current_fs`, `g_current_mount_partition` and `g_current_blockdev` -/
  currentFs : FsType
  currentMountPartition : Int
  currentBlockdev : Int
  fat : Fat32
  fatDevice : Nat
  ext : Extfs
  extDevice : Nat

def Vfs.fatState (v : Vfs) : Fat32 := { v.fat with disk := v.disks v.fatDevice }

def Vfs.extState (v : Vfs) : Extfs := { v.ext with disk := v.disks v.extDevice }

/-- `file_mount_partition_hint`, while `pending` is `g_pending_mount_partition`. -/
def fileMountPartitionHint (v : Vfs) (pending : Int) : Int :=
  if 0 ≤ pending then pending
  else
    match (List.finRange 8).find? fun i => (v.mounts i).mounted && decide (0 ≤ (v.mounts i).partition) with
    | some i => (v.mounts i).partition
    | none => -1

/-- `file_blockdev_hint`, while `pending` is `g_pending_blockdev`. -/
def fileBlockdevHint (v : Vfs) (pending : Int) : Int :=
  if 0 ≤ pending then pending else v.currentBlockdev

/-- `fs_init_by_type`, for the pending partition and block device. -/
def fsInitByType (other : FsType → Vfs → Bool) (type : FsType) (partition blockdev : Int)
    (v : Vfs) :
    Bool × Vfs :=
  let hint := fileMountPartitionHint v partition
  let disk := v.device (fileBlockdevHint v blockdev)
  match type with
  | .fat32 =>
    let (ok, s) := fat32Init hint { v.fat with disk := v.disks disk }
    (ok, { v with disks := Function.update v.disks disk s.disk, fat := s, fatDevice := disk })
  | .extfs =>
    let (ok, s) := extfsInit hint { v.ext with disk := v.disks disk }
    (ok, { v with ext := s, extDevice := disk })
  | .none => (false, v)
  | type => (other type v, v)

/-- `set_current_mount` for a mounted entry -/
def setCurrentMount (mount : MountPoint) (v : Vfs) : Vfs :=
  { v with
    currentFs := mount.fsType
    currentMountPartition := mount.partition
    currentBlockdev := mount.blockdevIndex }

def switchToMount (other : FsType → Vfs → Bool) (mountIdx : Fin 8) (v : Vfs) : Bool × Vfs :=
  let mount := v.mounts mountIdx
  if !mount.mounted then (false, v)
  else if v.currentFs = mount.fsType ∧ v.currentMountPartition = mount.partition ∧
      v.currentBlockdev = mount.blockdevIndex then (true, setCurrentMount mount v)
  else
    match fsInitByType other mount.fsType mount.partition mount.blockdevIndex v with
    | (false, v) => (false, v)
    | (true, v) => (true, setCurrentMount mount v)

/-- A read of a file, through `fat32_read_file` or `extfs_read_file`, or the variant with an offset.
-/
inductive ReadOp
  | readFile (path : List UInt8) (bufferSize : Nat)
  | readFileAt (path : List UInt8) (offset bufferSize : Nat)

def fat32Read (fuel : Nat) : ReadOp → Fat32M (Int × List UInt8)
  | .readFile path bufferSize => fat32ReadFile fuel path bufferSize
  | .readFileAt path offset bufferSize => fat32ReadFileAt fuel path offset bufferSize

def extfsRead : ReadOp → ExtM (Int × List UInt8)
  | .readFile path bufferSize => extfsReadFile path bufferSize
  | .readFileAt path offset bufferSize => extfsReadFileAt path offset bufferSize

/-- What a read on a mount point returns; the drivers that are not modelled return nothing. -/
def fileRead (other : FsType → Vfs → Bool) (fuel : Nat) (mountIdx : Fin 8) (op : ReadOp) (v : Vfs) :
    Option (Int × List UInt8) :=
  match switchToMount other mountIdx v with
  | (false, _) => some (-1, [])
  | (true, v) =>
    match v.currentFs with
    | .fat32 => (fat32Read fuel op v.fatState).map Prod.fst
    | .extfs => (extfsRead op v.extState).map Prod.fst
    | _ => none

end Monios.Model
