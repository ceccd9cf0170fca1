import Monios.Model.Fat32.Volume

/-!
# The geometry of a FAT16 volume

`fat16_init`, the entries of the FAT and the two loops over the clusters, from `fs/fat16.c`.  The
read cache and the directories are left out.
-/

set_option autoImplicit false

namespace Monios.Model

open Monios.Library

/-- The fields of `fat16_bpb_t` that are read here. -/
structure Fat16Bpb where
  bytesPerSector : Nat
  sectorsPerCluster : Nat
  reservedSectorCount : Nat
  fatCount : Nat
  rootEntryCount : Nat
  totalSectors16 : Nat
  fatSize16 : Nat
  totalSectors32 : Nat
  deriving DecidableEq

/-- `memcpy(&g_bpb, sector, sizeof(g_bpb))` -/
def Fat16Bpb.ofSector (sector : Sector) : Fat16Bpb where
  bytesPerSector := sector.u16 11
  sectorsPerCluster := (sector.byte 13).toNat
  reservedSectorCount := sector.u16 14
  fatCount := (sector.byte 16).toNat
  rootEntryCount := sector.u16 17
  totalSectors16 := sector.u16 19
  fatSize16 := sector.u16 22
  totalSectors32 := sector.u32 32

/-- `fat16_total_sectors` -/
def Fat16Bpb.totalSectors (b : Fat16Bpb) : Nat :=
  if b.totalSectors16 ≠ 0 then b.totalSectors16 else b.totalSectors32

structure Fat16 where
  disk : Nat → Sector
  bpb : Fat16Bpb
  volumeLba : Nat
  fatLba : Nat
  rootSectors : Nat
  rootLba : Nat
  dataLba : Nat
  clusterCount : Nat
  ready : Bool

/-- `fat16_init`; `mountHint` is what `file_mount_partition_hint` answers. -/
def fat16Init (mountHint : Int32) (s : Fat16) : Bool × Fat16 :=
  let volumeLba := mountHint.toInt.toNat
  let bpb := Fat16Bpb.ofSector (s.disk volumeLba)
  let s := { s with volumeLba := volumeLba, bpb := bpb }
  if bpb.bytesPerSector ≠ 512 ∨ bpb.sectorsPerCluster = 0 ∨ bpb.fatSize16 = 0 then (false, { s with ready := false })
  else
    let fatLba := w32 (volumeLba + bpb.reservedSectorCount)
    let rootSectors := (bpb.rootEntryCount * 32 + (bpb.bytesPerSector - 1)) / bpb.bytesPerSector
    let rootLba := w32 (fatLba + bpb.fatCount * bpb.fatSize16)
    let dataLba := w32 (rootLba + rootSectors)
    let s := { s with fatLba := fatLba, rootSectors := rootSectors, rootLba := rootLba, dataLba := dataLba }
    -- a count of sectors of the volume against an address on the device
    if bpb.totalSectors ≤ dataLba then (false, { s with ready := false })
    else (true, { s with clusterCount := (bpb.totalSectors - dataLba) / bpb.sectorsPerCluster, ready := true })

def fat16ClusterToLba (s : Fat16) (cluster : Nat) : Nat :=
  w32 (s.dataLba + w32 (cluster + (2 ^ 32 - 2)) * s.bpb.sectorsPerCluster)

def fat16GetFatEntry (s : Fat16) (cluster : Nat) : Nat :=
  let sectorLba := w32 (s.fatLba + cluster * 2 / s.bpb.bytesPerSector)
  let sectorOffset := cluster * 2 % s.bpb.bytesPerSector
  if sectorOffset ≤ s.bpb.bytesPerSector - 2 then (s.disk sectorLba).u16 sectorOffset
  else ((s.disk sectorLba).byte sectorOffset).toNat + 256 * ((s.disk (w32 (sectorLba + 1))).byte 0).toNat

def fat16SetFatEntry (s : Fat16) (cluster value : Nat) : Fat16 :=
  let sectorIndex := cluster * 2 / s.bpb.bytesPerSector
  let sectorOffset := cluster * 2 % s.bpb.bytesPerSector
  (List.range s.bpb.fatCount).foldl (fun s fat =>
    let sectorLba := w32 (s.fatLba + fat * s.bpb.fatSize16 + sectorIndex)
    let disk := Function.update s.disk sectorLba ((s.disk sectorLba).patch sectorOffset ((le16 value).take (512 - sectorOffset)))
    if sectorOffset ≤ s.bpb.bytesPerSector - 2 then { s with disk := disk }
    else
      let next := w32 (sectorLba + 1)
      { s with disk := Function.update disk next ((disk next).patch 0 ((le16 value).drop (512 - sectorOffset))) }) s

/-- A loop `for (uint16_t cluster = ...; cluster < bound; cluster++)` that may stop at a cluster:
the clusters it looks at, and the one it stops at. -/
def fat16Scan (stop : Nat → Bool) (bound : Nat) : Nat → Nat → Option (List Nat × Option Nat)
  | 0, _ => none
  | rounds + 1, cluster =>
    if cluster < bound then
      if stop cluster then some ([cluster], some cluster)
      else (fat16Scan stop bound rounds ((cluster + 1) % 2 ^ 16)).map fun r => (cluster :: r.1, r.2)
    else some ([], none)

/-- The loop of `fat16_allocate_cluster`. -/
def fat16AllocateLoop (s : Fat16) (rounds : Nat) : Option (List Nat × Option Nat) :=
  fat16Scan (fun cluster => fat16GetFatEntry s cluster == 0) (w32 (s.clusterCount + 2)) rounds 2

def fat16AllocateCluster (s : Fat16) (rounds : Nat) : Option (Nat × Fat16) :=
  (fat16AllocateLoop s rounds).map fun r =>
    match r.2 with
    | some cluster => (cluster, fat16SetFatEntry s cluster 0xFFFF)
    | none => (0, s)

/-- The loop of `fat16_total_bytes`. -/
def fat16TotalLoop (s : Fat16) (rounds : Nat) : Option (List Nat × Option Nat) :=
  fat16Scan (fun _ => false) (w32 (s.clusterCount + 2) % 2 ^ 16) rounds 2

/-- `fat16_total_bytes` with its two outputs, the free bytes and the bytes of a cluster. -/
def fat16TotalBytes (s : Fat16) (rounds : Nat) : Option (Nat × Nat × Nat) :=
  let clusterBytes := s.bpb.sectorsPerCluster * s.bpb.bytesPerSector
  if !s.ready || s.clusterCount == 0 then some (0, 0, 0)
  else (fat16TotalLoop s rounds).map fun r =>
    (s.clusterCount * clusterBytes, (r.1.countP fun cluster => fat16GetFatEntry s cluster == 0) * clusterBytes, clusterBytes)

end Monios.Model
