import Monios.Library.Disk

/-!
# The FAT32 driver: state, write-ahead log and mounting

The first part of `fs/fat32.c`: the driver's globals, its access to the device, the
write-ahead log in the last 512 sectors of the volume (`fat32_logged_write_sector`,
`wal_recover`) and `fat32_init`.

The device answers every request and a write of one sector is atomic.  Next to the
contents of the disk the state keeps the list of the sector writes made so far, the
newest last; the source has no such list, and nothing modelled here reads it.  All
sector addresses are `uint32_t`, and sums of them wrap around (`w32`).

Left out are the serial and boot log messages, `g_root_lba` and `g_root_sectors`,
which nothing reads, and the port-level ATA protocol under `ata_read_sector`.
-/

set_option autoImplicit false

namespace Monios.Model

open Monios.Library

/-- A value stored in a `uint32_t`. -/
def w32 (n : Nat) : Nat := n % 2 ^ 32

/-- A value returned as an `int32_t`. -/
def int32 (n : Nat) : Int := if n < 2 ^ 31 then n else (n : Int) - 2 ^ 32

abbrev Sector := Block 512

/-- `fat32_bpb_t`, the fields that are used. -/
structure Fat32Bpb where
  bytesPerSector : Nat
  sectorsPerCluster : Nat
  reservedSectorCount : Nat
  fatCount : Nat
  rootEntryCount : Nat
  totalSectors16 : Nat
  fatSize16 : Nat
  hiddenSectors : Nat
  totalSectors32 : Nat
  fatSize32 : Nat
  rootCluster : Nat
  volumeId : Nat
  deriving DecidableEq

/-- `memcpy(&g_bpb, sector, sizeof(g_bpb))` -/
def Fat32Bpb.ofSector (sector : Sector) : Fat32Bpb where
  bytesPerSector := sector.u16 11
  sectorsPerCluster := (sector.byte 13).toNat
  reservedSectorCount := sector.u16 14
  fatCount := (sector.byte 16).toNat
  rootEntryCount := sector.u16 17
  totalSectors16 := sector.u16 19
  fatSize16 := sector.u16 22
  hiddenSectors := sector.u32 28
  totalSectors32 := sector.u32 32
  fatSize32 := sector.u32 36
  rootCluster := sector.u32 44
  volumeId := sector.u32 67

def Fat32Bpb.isValid (bpb : Fat32Bpb) : Bool :=
  bpb.bytesPerSector == 512 && bpb.sectorsPerCluster != 0 && bpb.fatSize16 == 0 &&
    bpb.rootEntryCount == 0 && bpb.fatSize32 != 0 && decide (2 ≤ bpb.rootCluster)

def Fat32Bpb.totalSectors (bpb : Fat32Bpb) : Nat :=
  if bpb.totalSectors16 ≠ 0 then bpb.totalSectors16 else bpb.totalSectors32

/-- `data_start` of `fat32_init` -/
def Fat32Bpb.dataStart (bpb : Fat32Bpb) : Nat :=
  w32 (bpb.reservedSectorCount + w32 (bpb.fatCount * bpb.fatSize32))

/-- The 32 bytes of a `fat32_dir_entry_t`. -/
abbrev Fat32DirEntry := Block 32

/-- `fat32_dir_ref_t` -/
structure Fat32DirRef where
  isRoot : Bool
  startCluster : Nat
  deriving DecidableEq

/-- `fat32_dir_slot_t` -/
structure Fat32DirSlot where
  valid : Bool
  isRoot : Bool
  sectorLba : Nat
  byteOffset : Nat
  entry : Fat32DirEntry

/-- The globals of `fat32.c`, the disk under them and the writes made to it. -/
structure Fat32 where
  disk : Nat → Sector
  trace : List (Nat × Sector)
  bpb : Fat32Bpb
  volumeLba : Nat
  fatLba : Nat
  dataLba : Nat
  clusterCount : Nat
  ready : Bool
  /-- `g_fat32_read_cache_*` -/
  readCachePath : List UInt8
  readCacheValid : Bool
  readCacheStartCluster : Nat
  readCacheClusterIndex : Nat
  readCacheCluster : Nat
  /-- `g_fat32_fat_cache_lba` and `g_fat32_fat_cache` while the cache is valid -/
  fatCache : Option (Nat × Sector)
  walOn : Bool
  walLogLba : Nat
  walNext : Nat
  walMax : Nat
  walSeq : Nat
  walDirtyBoot : Bool
  /-- `g_append_*`; the buffer holds the pending bytes -/
  appendOpen : Bool
  appendParent : Fat32DirRef
  appendSlot : Fat32DirSlot
  appendFirstCluster : Nat
  appendPrevCluster : Nat
  appendSize : Nat
  appendClusterBuf : List UInt8
  /-- `g_chk_*` -/
  chkMark : Nat → Nat
  chkRef : Nat → Nat
  chkFoundIndex : Nat

def Fat32.unmounted (disk : Nat → Sector) : Fat32 where
  disk := disk
  trace := []
  bpb := Fat32Bpb.ofSector Block.zero
  volumeLba := 0
  fatLba := 0
  dataLba := 0
  clusterCount := 0
  ready := false
  readCachePath := []
  readCacheValid := false
  readCacheStartCluster := 0
  readCacheClusterIndex := 0
  readCacheCluster := 0
  fatCache := none
  walOn := false
  walLogLba := 0
  walNext := 0
  walMax := 0
  walSeq := 0
  walDirtyBoot := false
  appendOpen := false
  appendParent := ⟨false, 0⟩
  appendSlot := ⟨false, false, 0, 0, Block.zero⟩
  appendFirstCluster := 0
  appendPrevCluster := 0
  appendSize := 0
  appendClusterBuf := []
  chkMark := fun _ => 0
  chkRef := fun _ => 0
  chkFoundIndex := 0

def ataReadSector (s : Fat32) (lba : Nat) : Sector := s.disk lba

def ataWriteSector (s : Fat32) (lba : Nat) (buffer : Sector) : Fat32 :=
  { s with disk := Function.update s.disk lba buffer, trace := s.trace ++ [(lba, buffer)] }

/-- `ata_write_sectors`: the sectors are written one after the other. -/
def ataWriteSectors (s : Fat32) (lba : Nat) : List Sector → Fat32
  | [] => s
  | buffer :: rest => ataWriteSectors (ataWriteSector s lba buffer) (w32 (lba + 1)) rest

def fat32ClearReadCache (s : Fat32) : Fat32 :=
  { s with
    readCachePath := []
    readCacheValid := false
    readCacheStartCluster := 0
    readCacheClusterIndex := 0
    readCacheCluster := 0 }

def fat32ClearFatCache (s : Fat32) : Fat32 := { s with fatCache := none }

/-! ## The write-ahead log -/

/-- `FAT32_WAL_SECTORS` and `FAT32_WAL_REC_SECTORS` -/
def walSectors : Nat := 512

def walRecSectors : Nat := 3

/-- `FAT32_WAL_ST_INPROGRESS` and `FAT32_WAL_ST_COMMITTED` -/
def walStInProgress : Nat := 1

def walStCommitted : Nat := 2

/-- `FAT32_WAL_CLEAN` and `FAT32_WAL_DIRTY` -/
def walClean : Nat := 1

def walDirty : Nat := 0

def walLbaInLog (s : Fat32) (lba : Nat) : Bool :=
  decide (s.walLogLba ≤ lba) && decide (lba < w32 (s.walLogLba + walSectors))

def walRecHdrLba (s : Fat32) (i : Nat) : Nat := w32 (s.walLogLba + 1 + i * walRecSectors)

def walChecksumSectors (oldImg newImg : Sector) : Nat :=
  (List.range 128).foldl (fun sum k => w32 (sum + w32 (oldImg.u32 (4 * k) + newImg.u32 (4 * k)))) 0

def walFields (magic : List UInt8) (a b c d : Nat) : Sector :=
  ((((Block.zero.patch 0 magic).patch 4 (le32 a)).patch 8 (le32 b)).patch 12 (le32 c)).patch 16 (le32 d)

/-- The log header: `MWLG`, the version, the clean flag, the number of records in use
and the capacity. -/
def walHeader (clean next max : Nat) : Sector :=
  walFields [0x4D, 0x57, 0x4C, 0x47] 1 clean next max

/-- A record header: `WREC`, the sequence number, the target, the checksum and the status. -/
def walRecord (seq target sum status : Nat) : Sector :=
  walFields [0x57, 0x52, 0x45, 0x43] seq target sum status

/-- The test for the four letters, `hdr[0] != 'M' || ...` and `rh[0] != 'W' || ...`. -/
def walHasMagic (magic : List UInt8) (sector : Sector) : Bool :=
  sector.byte 0 == magic.getD 0 0 && sector.byte 1 == magic.getD 1 0 &&
    sector.byte 2 == magic.getD 2 0 && sector.byte 3 == magic.getD 3 0

def walHeaderMagic (hdr : Sector) : Bool := walHasMagic [0x4D, 0x57, 0x4C, 0x47] hdr

def walRecordMagic (rh : Sector) : Bool := walHasMagic [0x57, 0x52, 0x45, 0x43] rh

def walWriteHeader (s : Fat32) (clean next : Nat) : Fat32 :=
  ataWriteSector s s.walLogLba (walHeader clean next s.walMax)

/-- The two tests at the head of `fat32_logged_write_sector`: does it log this write? -/
def walLogs (s : Fat32) (targetLba : Nat) : Bool :=
  s.walOn && !walLbaInLog s targetLba && decide (s.volumeLba ≤ targetLba) &&
    decide (targetLba < w32 (s.volumeLba + s.bpb.totalSectors))

def fat32LoggedWriteSector (s : Fat32) (targetLba : Nat) (newbuf : Sector) : Fat32 :=
  if walLogs s targetLba then
    let oldImg := ataReadSector s targetLba
    -- log full: restart the circular log from slot 0
    let idx := if s.walMax ≤ s.walNext then 0 else s.walNext
    let h := walRecHdrLba s idx
    let sum := walChecksumSectors oldImg newbuf
    let seq := s.walSeq
    let s := { s with walNext := idx, walSeq := w32 (seq + 1) }
    let s := ataWriteSector s h (walRecord seq targetLba sum walStInProgress)
    let s := ataWriteSector s (w32 (h + 1)) oldImg
    let s := ataWriteSector s (w32 (h + 2)) newbuf
    let s := ataWriteSector s targetLba newbuf
    let s := ataWriteSector s h (walRecord seq targetLba sum walStCommitted)
    let s := { s with walNext := idx + 1 }
    walWriteHeader s walDirty (idx + 1)
  else
    ataWriteSector s targetLba newbuf

/-- The write `wal_recover` makes for slot `i`, when the slot holds a record that it
undoes or redoes. -/
def walReplayWrite (s : Fat32) (i : Nat) : Option (Nat × Sector) :=
  let h := walRecHdrLba s i
  let rh := ataReadSector s h
  if walRecordMagic rh then
    if rh.u32 16 = walStInProgress then
      some (rh.u32 8, ataReadSector s (w32 (h + 1)))
    else if rh.u32 16 = walStCommitted then
      some (rh.u32 8, ataReadSector s (w32 (h + 2)))
    else none
  else none

/-- The body of the loop of `wal_recover`. -/
def walReplayRecord (s : Fat32) (i : Nat) : Fat32 :=
  match walReplayWrite s i with
  | some (tl, image) => ataWriteSector s tl image
  | none => s

/-- The number of records `wal_recover` replays: the count in the log header, at most
the capacity that stands there. -/
def walReplayLimit (s : Fat32) : Nat :=
  let hdr := ataReadSector s s.walLogLba
  let maxrec := if hdr.u32 16 = 0 then s.walMax else hdr.u32 16
  min (hdr.u32 12) maxrec

def walRecover (s : Fat32) : Fat32 :=
  let hdr := ataReadSector s s.walLogLba
  if walHeaderMagic hdr then
    let s := (List.range (walReplayLimit s)).foldl walReplayRecord s
    let s := { s with walDirtyBoot := hdr.u32 8 == walDirty, walNext := 0 }
    walWriteHeader s walClean 0
  else
    walWriteHeader { s with walNext := 0, walDirtyBoot := false } walClean 0

def fat32PartitionType (type : UInt8) : Bool := type == 0x0B || type == 0x0C || type == 0xEF

/-- The first entry of the partition table in `sector` that `fat32_init` takes: the
address its volume starts at. -/
def fat32FindPartition (sector : Sector) : Option Nat :=
  ((List.range 4).find? fun i =>
    fat32PartitionType (sector.byte (446 + i * 16 + 4)) && sector.u32 (446 + i * 16 + 12) != 0).map
      fun i => sector.u32 (446 + i * 16 + 8)

/-- Where `fat32_init` looks for the boot sector first.  A negative hint is no hint. -/
def fat32FirstSector (mountHint : Int) : Nat := mountHint.toNat

/-- The part of `fat32_init` that finds the volume: `g_volume_lba` and `g_bpb`, and
whether the boot sector has been accepted. -/
def fat32Locate (disk : Nat → Sector) (mountHint : Int) : Nat × Fat32Bpb × Bool :=
  let lba := fat32FirstSector mountHint
  let sector := disk lba
  let bpb := Fat32Bpb.ofSector sector
  if !bpb.isValid then
    if 0 ≤ mountHint then (lba, bpb, false)
    else if sector.u16 510 ≠ 0xAA55 then (lba, bpb, false)
    else
      match fat32FindPartition sector with
      | some start =>
        let bpb := Fat32Bpb.ofSector (disk start)
        (start, bpb, bpb.isValid)
      | none => (lba, bpb, false)
  else if bpb.hiddenSectors ≠ 0 then
    let volumeBpb := Fat32Bpb.ofSector (disk bpb.hiddenSectors)
    -- `g_bpb` is overwritten before its `hidden_sectors` is taken for the volume's address
    if volumeBpb.isValid then (volumeBpb.hiddenSectors, volumeBpb, true) else (lba, bpb, true)
  else (lba, bpb, true)

/-- `fat32_init`; `mountHint` is what `file_mount_partition_hint` answers. -/
def fat32Init (mountHint : Int) (s : Fat32) : Bool × Fat32 :=
  let (volumeLba, bpb, accepted) := fat32Locate s.disk mountHint
  let s := { s with volumeLba := volumeLba, bpb := bpb }
  if !accepted then (false, { s with ready := false })
  else
    let s := { s with
      fatLba := w32 (volumeLba + bpb.reservedSectorCount)
      dataLba := w32 (volumeLba + bpb.dataStart) }
    if bpb.totalSectors ≤ bpb.dataStart then (false, { s with ready := false })
    else
      let dataSectors := bpb.totalSectors - bpb.dataStart
      let s := { s with walOn := false, walMax := 0, walNext := 0, walSeq := 0, walDirtyBoot := false }
      let (dataSectors, s) :=
        if walSectors + 32 < dataSectors then
          let s := { s with
            walLogLba := w32 (volumeLba + (bpb.totalSectors - walSectors))
            walMax := (walSectors - 1) / walRecSectors }
          (dataSectors - walSectors, { walRecover s with walOn := true })
        else (dataSectors, { s with walLogLba := 0 })
      let s := { s with clusterCount := dataSectors / bpb.sectorsPerCluster }
      (true, { fat32ClearFatCache (fat32ClearReadCache s) with ready := true })

end Monios.Model
