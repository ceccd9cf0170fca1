import Monios.Model.Fat32.Volume

/-!
# The FAT32 driver: the allocation table

Reading and writing FAT entries through the one-sector cache, allocating and freeing
clusters, and walking the chain of a directory.

A call of the driver is a state transformer on its globals.  The loops of the source
that end only on a chain that ends are given a number of rounds, the fuel; a call that
has used it up has no result.  `bytes_per_sector` is 512 on every volume that
`fat32_bpb_is_valid` lets through, so a FAT entry never crosses a sector border and the
two-sector branches of `fat32_get_fat_entry` and `fat32_set_fat_entry` are left out.
-/

set_option autoImplicit false

namespace Monios.Model

open Monios.Library

abbrev Fat32M := StateT Fat32 Option

def readSector (lba : Nat) : Fat32M Sector := fun s => some (ataReadSector s lba, s)

def change (f : Fat32 → Fat32) : Fat32M Unit := fun s => some ((), f s)

def outOfFuel {α : Type} : Fat32M α := fun _ => none

/-- `FAT32_CLUSTER_FREE`, `FAT32_CLUSTER_END` and `FAT32_CLUSTER_BAD` -/
def fat32ClusterFree : Nat := 0

def fat32ClusterEnd : Nat := 0x0FFFFFF8

def fat32ClusterBad : Nat := 0x0FFFFFF7

/-- `value & FAT32_CLUSTER_MASK` -/
def fat32Masked (value : Nat) : Nat := value % 2 ^ 28

def fat32IsEndCluster (cluster : Nat) : Bool :=
  decide (fat32ClusterEnd ≤ fat32Masked cluster) && fat32Masked cluster != fat32ClusterBad

/-- `cluster >= 2 && cluster < g_cluster_count + 2` -/
def fat32InRange (s : Fat32) (cluster : Nat) : Bool :=
  decide (2 ≤ cluster) && decide (cluster < s.clusterCount + 2)

def fat32ClusterToLba (s : Fat32) (cluster : Nat) : Nat :=
  w32 (s.dataLba + w32 (cluster + (2 ^ 32 - 2)) * s.bpb.sectorsPerCluster)

/-- The sector of FAT copy `fat` that holds the entry of a cluster. -/
def fat32FatSector (s : Fat32) (fat cluster : Nat) : Nat :=
  w32 (s.fatLba + fat * s.bpb.fatSize32 + w32 (cluster * 4) / 512)

def fat32FatOffset (cluster : Nat) : Nat := w32 (cluster * 4) % 512

def fat32GetFatEntry (cluster : Nat) : Fat32M Nat := fun s =>
  let sectorLba := fat32FatSector s 0 cluster
  let sector :=
    match s.fatCache with
    | some (lba, sector) => if lba = sectorLba then sector else ataReadSector s sectorLba
    | none => ataReadSector s sectorLba
  some (fat32Masked (sector.u32 (fat32FatOffset cluster)),
    { s with fatCache := some (sectorLba, sector) })

def fat32PatchEntry (sector : Sector) (cluster value : Nat) : Sector :=
  let current := sector.u32 (fat32FatOffset cluster)
  sector.patch (fat32FatOffset cluster) (le32 (current / 2 ^ 28 * 2 ^ 28 + fat32Masked value))

def fat32RefreshFatCache (sectorLba : Nat) (sector : Sector) (s : Fat32) : Fat32 :=
  match s.fatCache with
  | some (lba, _) => if lba = sectorLba then { s with fatCache := some (lba, sector) } else s
  | none => s

/-- The body of the loop of `fat32_set_fat_entry`. -/
def fat32SetFatCopy (cluster value fat : Nat) : Fat32M Unit := do
  let s ← get
  let sectorLba := fat32FatSector s fat cluster
  let sector ← readSector sectorLba
  let sector := fat32PatchEntry sector cluster value
  change fun s => fat32LoggedWriteSector s sectorLba sector
  if fat = 0 then change (fat32RefreshFatCache sectorLba sector) else pure ()

def fat32SetFatEntry (cluster value : Nat) : Fat32M Unit := do
  let s ← get
  (List.range s.bpb.fatCount).forM (fat32SetFatCopy cluster value)

/-- The loop of `fat32_allocate_cluster`, with `n` clusters still to look at. -/
def fat32AllocateFrom : Nat → Nat → Fat32M Nat
  | 0, _ => pure 0
  | n + 1, cluster => do
      let entry ← fat32GetFatEntry cluster
      if entry = fat32ClusterFree then
        fat32SetFatEntry cluster fat32ClusterEnd
        pure cluster
      else fat32AllocateFrom n (cluster + 1)

def fat32AllocateCluster : Fat32M Nat := do
  let s ← get
  fat32AllocateFrom s.clusterCount 2

def fat32ZeroCluster (cluster : Nat) : Fat32M Unit :=
  change fun s =>
    ataWriteSectors s (fat32ClusterToLba s cluster) (List.replicate s.bpb.sectorsPerCluster Block.zero)

def fat32FreeChain : Nat → Nat → Fat32M Unit
  | 0, _ => outOfFuel
  | fuel + 1, cluster => do
      let s ← get
      if fat32InRange s cluster then
        let next ← fat32GetFatEntry cluster
        fat32SetFatEntry cluster fat32ClusterFree
        if fat32IsEndCluster next || next == fat32ClusterFree || next == fat32ClusterBad then pure ()
        else fat32FreeChain fuel next
      else pure ()

/-- The walk of `fat32_read_dir_sector` and `fat32_write_dir_sector`: the address and the
cluster of the sector that is `remaining` sectors behind the start of `cluster`.  Every
round leaves at least one sector behind, so the number of rounds is bounded by it. -/
def fat32DirSectorWalk : Nat → Nat → Nat → Fat32M (Option (Nat × Nat))
  | 0, _, _ => pure none
  | rounds + 1, remaining, cluster => do
      let s ← get
      if fat32InRange s cluster then
        if remaining < s.bpb.sectorsPerCluster then
          pure (some (w32 (fat32ClusterToLba s cluster + remaining), cluster))
        else
          let next ← fat32GetFatEntry cluster
          if fat32IsEndCluster next then pure none
          else fat32DirSectorWalk rounds (remaining - s.bpb.sectorsPerCluster) next
      else pure none

/-- `fat32_read_dir_sector`: the sector and the cluster it lies in. -/
def fat32ReadDirSector (dir : Fat32DirRef) (sectorIndex : Nat) : Fat32M (Option (Sector × Nat)) :=
  do
  match ← fat32DirSectorWalk (sectorIndex + 1) sectorIndex dir.startCluster with
  | some (lba, cluster) =>
    let sector ← readSector lba
    pure (some (sector, cluster))
  | none => pure none

def fat32WriteDirSector (dir : Fat32DirRef) (sectorIndex : Nat) (buffer : Sector) : Fat32M Bool :=
  do
  match ← fat32DirSectorWalk (sectorIndex + 1) sectorIndex dir.startCluster with
  | some (lba, _) =>
    change fun s => fat32LoggedWriteSector s lba buffer
    pure true
  | none => pure false

/-- The loop of `fat32_extend_dir`: the last cluster of a chain. -/
def fat32ChainLast : Nat → Nat → Fat32M Nat
  | 0, _ => outOfFuel
  | fuel + 1, cluster => do
      let entry ← fat32GetFatEntry cluster
      if fat32IsEndCluster entry then pure cluster
      else
        let next ← fat32GetFatEntry cluster
        fat32ChainLast fuel next

def fat32ExtendDir (fuel : Nat) (dir : Fat32DirRef) : Fat32M Bool := do
  let newCluster ← fat32AllocateCluster
  if newCluster = 0 then pure false
  else
    fat32ZeroCluster newCluster
    let last ← fat32ChainLast fuel dir.startCluster
    fat32SetFatEntry last newCluster
    fat32SetFatEntry newCluster fat32ClusterEnd
    pure true

end Monios.Model
