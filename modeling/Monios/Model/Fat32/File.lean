import Monios.Model.Fat32.Directory

/-!
# The FAT32 driver: file operations and formatting

Reading, writing, deleting and renaming files and directories, the append-only
writer and `fat32_format`.  A read answers with the return value and the bytes it has
put into the caller's buffer.

The append buffer of the source holds 128 sectors; with more than 128 sectors per
cluster the source writes past its end, which is not modelled.
-/

set_option autoImplicit false

namespace Monios.Model

open Monios.Library

/-! ## Queries -/

def fat32Exists (fuel : Nat) (path : List UInt8) : Fat32M Bool := do
  let s ← get
  if s.ready then
    let found ← fat32ResolvePath fuel path
    pure found.isSome
  else pure false

def fat32FileSize (fuel : Nat) (path : List UInt8) : Fat32M Int := do
  let s ← get
  if s.ready then
    match ← fat32ResolvePath fuel path with
    | some (_, slot) =>
      if slot.entry.isDirectory then pure (-1) else pure (int32 slot.entry.fileSize)
    | none => pure (-1)
  else pure (-1)

/-! ## Reading a whole file -/

/-- The inner loop of `fat32_read_file`, with `n` sectors of the cluster still to read:
whether the buffer was too small, the bytes left, and the bytes read. -/
def fat32ReadClusterFrom (bufferSize cluster : Nat) :
    Nat → Nat → Nat → List UInt8 → Fat32M (Bool × Nat × List UInt8)
  | 0, _, bytesLeft, dst => pure (false, bytesLeft, dst)
  | n + 1, sectorIndex, bytesLeft, dst => do
      if bytesLeft = 0 then pure (false, bytesLeft, dst)
      else
        let chunk := if 512 < bytesLeft then 512 else bytesLeft
        if bufferSize < dst.length + chunk then pure (true, bytesLeft, dst)
        else
          let s ← get
          let sector ← readSector (w32 (fat32ClusterToLba s cluster + sectorIndex))
          fat32ReadClusterFrom bufferSize cluster n (sectorIndex + 1) (bytesLeft - chunk) (dst ++ sector.bytes 0 chunk)

/-- The outer loop of `fat32_read_file`: whether the buffer was too small, and the bytes
read. -/
def fat32ReadChain (bufferSize : Nat) : Nat → Nat → Nat → List UInt8 → Fat32M (Bool × List UInt8)
  | 0, _, _, _ => outOfFuel
  | fuel + 1, cluster, bytesLeft, dst => do
      let s ← get
      if fat32InRange s cluster && decide (0 < bytesLeft) then
        let (overflow, bytesLeft, dst) ←
          fat32ReadClusterFrom bufferSize cluster s.bpb.sectorsPerCluster 0 bytesLeft dst
        if overflow then pure (true, dst)
        else
          let next ← fat32GetFatEntry cluster
          if fat32IsEndCluster next then pure (false, dst)
          else fat32ReadChain bufferSize fuel next bytesLeft dst
      else pure (false, dst)

def fat32ReadFile (fuel : Nat) (path : List UInt8) (bufferSize : Nat) :
    Fat32M (Int × List UInt8) := do
  let s ← get
  if !s.ready then pure (-1, [])
  else
    match ← fat32ResolvePath fuel path with
    | none => pure (-1, [])
    | some (_, slot) =>
      if slot.entry.isDirectory then pure (-3, [])
      else
        let (overflow, dst) ←
          fat32ReadChain bufferSize fuel slot.entry.cluster slot.entry.fileSize []
        if overflow then pure (-2, dst) else pure (int32 slot.entry.fileSize, dst)

/-! ## Reading a part of a file -/

/-- The first loop of `fat32_read_file_at`: `walk` links along the chain.  `none` is the
end of the chain. -/
def fat32WalkClusters : Nat → Nat → Fat32M (Option Nat)
  | 0, cluster => pure (some cluster)
  | walk + 1, cluster => do
      let s ← get
      if fat32InRange s cluster then
        let next ← fat32GetFatEntry cluster
        if fat32IsEndCluster next then pure none else fat32WalkClusters walk next
      else pure (some cluster)

/-- The search for consecutive clusters: the last one found, with `n` more to try. -/
def fat32ProbeContiguous : Nat → Nat → Fat32M Nat
  | 0, probe => pure probe
  | n + 1, probe => do
      let next ← fat32GetFatEntry probe
      if next = w32 (probe + 1) then fat32ProbeContiguous n next else pure probe

def readSectors (lba : Nat) : Nat → Fat32M (List UInt8)
  | 0 => pure []
  | n + 1 => do
      let sector ← readSector lba
      let rest ← readSectors (w32 (lba + 1)) n
      pure (sector.bytes 0 512 ++ rest)

/-- The sector loop of `fat32_read_file_at`: the bytes left and the bytes read.  Several whole
sectors are read with one command, so there are at most as many rounds as sectors. -/
def fat32ReadPartFrom (cluster offsetInCluster : Nat) :
    Nat → Nat → Nat → List UInt8 → Fat32M (Nat × List UInt8)
  | 0, _, bytesLeft, dst => pure (bytesLeft, dst)
  | rounds + 1, sectorIndex, bytesLeft, dst => do
      let s ← get
      if sectorIndex < s.bpb.sectorsPerCluster ∧ 0 < bytesLeft then
        if sectorIndex * 512 + 512 ≤ offsetInCluster then
          fat32ReadPartFrom cluster offsetInCluster rounds (sectorIndex + 1) bytesLeft dst
        else
          let start := offsetInCluster - sectorIndex * 512
          let wholeSectors := min (min (bytesLeft / 512) (s.bpb.sectorsPerCluster - sectorIndex)) 255
          let lba := w32 (fat32ClusterToLba s cluster + sectorIndex)
          if start = 0 ∧ 512 ≤ bytesLeft ∧ 1 < wholeSectors then
            let bytes ← readSectors lba wholeSectors
            fat32ReadPartFrom cluster offsetInCluster rounds (sectorIndex + wholeSectors)
              (bytesLeft - wholeSectors * 512) (dst ++ bytes)
          else
            let chunk := min (512 - start) bytesLeft
            let sector ← readSector lba
            fat32ReadPartFrom cluster offsetInCluster rounds (sectorIndex + 1) (bytesLeft - chunk)
              (dst ++ sector.bytes start chunk)
      else pure (bytesLeft, dst)

/-- The read cache after `count` more clusters of the chain. -/
def fat32AdvanceReadCache (count cluster : Nat) (s : Fat32) : Fat32 :=
  { s with readCacheClusterIndex := w32 (s.readCacheClusterIndex + count), readCacheCluster := cluster }

/-- What one round of the main loop of `fat32_read_file_at` reads: the last cluster it has
read from, the bytes left and the bytes read. -/
def fat32ReadAtRound (cluster offsetInCluster bytesLeft : Nat) (dst : List UInt8) :
    Fat32M (Nat × Nat × List UInt8) := do
  let s ← get
  let clusterBytes := s.bpb.sectorsPerCluster * 512
  let maxContiguous := min (bytesLeft / clusterBytes) (max (255 / s.bpb.sectorsPerCluster) 1)
  -- `last` is the last of the consecutive clusters that are read with one command
  let last ← if offsetInCluster = 0 ∧ clusterBytes ≤ bytesLeft then
      fat32ProbeContiguous (maxContiguous - 1) cluster
    else pure cluster
  let contiguous := last - cluster + 1
  if 1 < contiguous then
    let sectors := contiguous * s.bpb.sectorsPerCluster
    let bytes ← readSectors (fat32ClusterToLba s cluster) sectors
    change (fat32AdvanceReadCache (contiguous - 1) last)
    pure (last, bytesLeft - sectors * 512, dst ++ bytes)
  else
    let (bytesLeft, dst) ←
      fat32ReadPartFrom cluster offsetInCluster s.bpb.sectorsPerCluster 0 bytesLeft dst
    pure (cluster, bytesLeft, dst)

/-- The main loop of `fat32_read_file_at`: the bytes read. -/
def fat32ReadAtChain : Nat → Nat → Nat → Nat → List UInt8 → Fat32M (List UInt8)
  | 0, _, _, _, _ => outOfFuel
  | fuel + 1, cluster, offsetInCluster, bytesLeft, dst => do
      let s ← get
      if fat32InRange s cluster && decide (0 < bytesLeft) then
        let (last, bytesLeft, dst) ← fat32ReadAtRound cluster offsetInCluster bytesLeft dst
        if bytesLeft = 0 then pure dst
        else
          let next ← fat32GetFatEntry last
          if fat32IsEndCluster next then pure dst
          else
            change (fat32AdvanceReadCache 1 next)
            fat32ReadAtChain fuel next 0 bytesLeft dst
      else pure dst

def fat32ReadCacheHit (s : Fat32) (path : List UInt8) (firstCluster targetIndex : Nat) :
    Option (Nat × Nat) :=
  if s.readCacheValid && s.readCachePath == path && s.readCacheStartCluster == firstCluster &&
      fat32InRange s s.readCacheCluster && decide (s.readCacheClusterIndex ≤ targetIndex) then
    some (s.readCacheCluster, s.readCacheClusterIndex)
  else none

/-- The read cache when `fat32_read_file_at` has found the cluster of the offset.  Of a path
with more than 255 bytes the cache keeps a prefix and is not valid. -/
def fat32SetReadCache (path : List UInt8) (firstCluster targetIndex cluster : Nat) (s : Fat32) :
    Fat32 :=
  { s with
    readCachePath := path.take 255
    readCacheValid := decide (path.length < 256)
    readCacheStartCluster := firstCluster
    readCacheClusterIndex := targetIndex
    readCacheCluster := cluster }

/-- The part of `fat32_read_file_at` behind the checks: `count` bytes from `offset` on, of the
file that starts at `firstCluster`. -/
def fat32ReadAt (fuel : Nat) (path : List UInt8) (firstCluster offset count : Nat) :
    Fat32M (List UInt8) := do
  let s ← get
  let clusterBytes := s.bpb.sectorsPerCluster * 512
  let targetIndex := offset / clusterBytes
  let (start, walk) :=
    match fat32ReadCacheHit s path firstCluster targetIndex with
    | some (cluster, index) => (cluster, targetIndex - index)
    | none => (firstCluster, targetIndex)
  match ← fat32WalkClusters walk start with
  | none => pure []
  | some cluster =>
    change (fat32SetReadCache path firstCluster targetIndex cluster)
    fat32ReadAtChain fuel cluster (offset % clusterBytes) count []

def fat32ReadFileAt (fuel : Nat) (path : List UInt8) (offset bufferSize : Nat) :
    Fat32M (Int × List UInt8) := do
  let s ← get
  if !s.ready then pure (-1, [])
  else
    match ← fat32ResolvePath fuel path with
    | none => pure (-1, [])
    | some (_, slot) =>
      if slot.entry.isDirectory then pure (-3, [])
      else if slot.entry.fileSize ≤ offset ∨ bufferSize = 0 then pure (0, [])
      else
        let count := min (slot.entry.fileSize - offset) bufferSize
        let dst ← fat32ReadAt fuel path slot.entry.cluster offset count
        pure (int32 dst.length, dst)

/-! ## Writing -/

/-- The sectors of a cluster that hold the first bytes of `data`, zero behind them. -/
def clusterSectors (sectorsPerCluster : Nat) (data : List UInt8) : List Sector :=
  (List.range sectorsPerCluster).map fun k => Block.ofBytes (slice data (512 * k) 512)

/-- The data of one cluster goes to the disk.  The source hands it to the device in batches
of eight sectors. -/
def fat32WriteClusterData (cluster : Nat) (data : List UInt8) : Fat32M Unit :=
  change fun s =>
    ataWriteSectors s (fat32ClusterToLba s cluster) (clusterSectors s.bpb.sectorsPerCluster data)

/-- The links set when a cluster is put behind `previous`, 0 being none. -/
def fat32LinkCluster (previous cluster : Nat) : Fat32M Unit := do
  if previous ≠ 0 then fat32SetFatEntry previous cluster else pure ()
  fat32SetFatEntry cluster fat32ClusterEnd

/-- The loop of `fat32_write_file`: the first cluster of the new chain, or `none` when the
volume is full. -/
def fat32WriteChain (fuel : Nat) : Nat → List UInt8 → Nat → Nat → Fat32M (Option Nat)
  | 0, _, _, _ => outOfFuel
  | n + 1, data, first, previous => do
      if data.isEmpty then pure (some first)
      else
        let cluster ← fat32AllocateCluster
        if cluster = 0 then
          if first ≠ 0 then fat32FreeChain fuel first else pure ()
          pure none
        else
          let first := if first = 0 then cluster else first
          fat32LinkCluster previous cluster
          fat32WriteClusterData cluster data
          let s ← get
          fat32WriteChain fuel n (data.drop (s.bpb.sectorsPerCluster * 512)) first cluster

/-- The slot `fat32_write_file` and `fat32_append_open` write to: that of an existing file,
whose chain is freed, or a new one.  The error is the return value for a directory, and
`failed` when there is no slot. -/
def fat32OpenForWrite (fuel : Nat) (parent : Fat32DirRef) (component : List UInt8)
    (isDir failed : Int) :
    Fat32M (Except Int Fat32DirSlot) := do
  match ← fat32FindEntryInDir fuel parent component with
  | none =>
    match ← fat32CreateNamedEntry fuel parent component with
    | none => pure (.error failed)
    | some slot => pure (.ok slot)
  | some slot =>
    if slot.entry.isDirectory then pure (.error isDir)
    else
      if 2 ≤ slot.entry.cluster then fat32FreeChain fuel slot.entry.cluster else pure ()
      pure (.ok slot)

def fat32WriteFile (fuel : Nat) (path data : List UInt8) : Fat32M Int := do
  let s ← get
  if !s.ready then pure (-1)
  else
    match ← fat32ResolveParent fuel path with
    | none => pure (-1)
    | some (parent, component) =>
      if component.isEmpty then pure (-1)
      else
        change fat32ClearReadCache
        match ← fat32OpenForWrite fuel parent component (-3) (-2) with
        | .error code => pure code
        | .ok slot =>
          match ← fat32WriteChain fuel fuel data 0 0 with
          | none => pure (-4)
          | some first =>
            let entry := ((slot.entry.setAttr 0).setCluster first).setFileSize data.length
            if ← fat32WriteSlot { slot with entry := entry } then pure (int32 data.length)
            else pure (-5)

def fat32Delete (fuel : Nat) (path : List UInt8) : Fat32M Bool := do
  let s ← get
  if !s.ready then pure false
  else
    match ← fat32ResolvePath fuel path with
    | none => pure false
    | some (_, slot) =>
      change fat32ClearReadCache
      if slot.entry.isDirectory then pure false
      else
        if 2 ≤ slot.entry.cluster then fat32FreeChain fuel slot.entry.cluster else pure ()
        fat32WriteSlot { slot with entry := slot.entry.patch 0 [0xE5] }

/-! ## Directories -/

/-- The entry for `.` or `..`: the dots, blanks, the directory attribute and a cluster. -/
def fat32DotEntry (dots : List UInt8) (cluster : Nat) : Fat32DirEntry :=
  ((((Block.zero : Fat32DirEntry).patch 0 (List.replicate 11 0x20)).patch 0 dots).patch 11
    [0x10]).patch 26 (le16 cluster) |>.patch 20 (le16 (cluster / 65536))

def fat32InitDotEntries (newDir : Fat32DirRef) (selfCluster parentCluster : Nat) : Fat32M Unit := do
  let sector : Sector := (Block.zero.patch 0 ((fat32DotEntry [0x2E] selfCluster).bytes 0 32)).patch 32
    ((fat32DotEntry [0x2E, 0x2E] parentCluster).bytes 0 32)
  let _ ← fat32WriteDirSector newDir 0 sector
  pure ()

def fat32Mkdir (fuel : Nat) (path : List UInt8) : Fat32M Bool := do
  let s ← get
  if !s.ready then pure false
  else
    match ← fat32ResolveParent fuel path with
    | none => pure false
    | some (parent, component) =>
      if component.isEmpty then pure false
      else
        match ← fat32FindEntryInDir fuel parent component with
        | some _ => pure false
        | none =>
          let newCluster ← fat32AllocateCluster
          if newCluster = 0 then pure false
          else
            fat32ZeroCluster newCluster
            match ← fat32CreateNamedEntry fuel parent component with
            | none =>
              fat32FreeChain fuel newCluster
              pure false
            | some slot =>
              let entry := ((slot.entry.setAttr 0x10).setCluster newCluster).setFileSize 0
              if ← fat32WriteSlot { slot with entry := entry } then
                let parentCluster := if parent.isRoot then 0 else parent.startCluster
                fat32InitDotEntries ⟨false, newCluster⟩ newCluster parentCluster
                pure true
              else
                fat32FreeChain fuel newCluster
                pure false

/-- What `fat32_rmdir` makes of the entries of one sector: the first entry that decides,
whether it is the end marker. -/
def fat32RmdirScan (sector : Sector) : Option Bool :=
  ((List.range 16).map fun i => dirEntryAt sector (32 * i)).findSome? fun e =>
    if e.name0 = 0x00 then some true
    else if e.name0 = 0xE5 || e.isLfn || e.isDot then none
    else some false

/-- The loop of `fat32_rmdir`: is the directory empty? -/
def fat32DirIsEmpty (dir : Fat32DirRef) : Nat → Nat → Fat32M Bool
  | 0, _ => outOfFuel
  | fuel + 1, sectorIndex => do
      match ← fat32ReadDirSector dir sectorIndex with
      | none => pure true
      | some (sector, _) =>
        match fat32RmdirScan sector with
        | some empty => pure empty
        | none => fat32DirIsEmpty dir fuel (w32 (sectorIndex + 1))

def fat32Rmdir (fuel : Nat) (path : List UInt8) : Fat32M Bool := do
  let s ← get
  if !s.ready then pure false
  else
    match ← fat32ResolvePath fuel path with
    | none => pure false
    | some (_, slot) =>
      if slot.entry.isDirectory then
        if ← fat32DirIsEmpty ⟨false, slot.entry.cluster⟩ fuel 0 then
          fat32FreeChain fuel slot.entry.cluster
          fat32WriteSlot { slot with entry := slot.entry.patch 0 [0xE5] }
        else pure false
      else pure false

/-! ## Renaming -/

/-- The new entry of `fat32_rename`: the metadata of the old one under the new name, with a
fixed write date and time. -/
def fat32RenamedEntry (fresh old : Fat32DirEntry) : Fat32DirEntry :=
  ((((((((fresh.setAttr old.attr).setCluster old.cluster).setFileSize old.fileSize).patch 14
    (le16 (old.u16 14))).patch 16 (le16 (old.u16 16))).patch 18 (le16 (old.u16 18))).patch 13
      [old.byte 13]).patch 24 (le16 0x5462)).patch 22 (le16 0x6000)

/-- The end of `fat32_rename`: the `..` entry of a directory that has got a new parent. -/
def fat32FixDotDot (cluster newParentCluster : Nat) : Fat32M Unit := do
  let moved : Fat32DirRef := ⟨false, cluster⟩
  match ← fat32ReadDirSector moved 0 with
  | none => pure ()
  | some (sector, _) =>
    if sector.byte 32 = 0x2E ∧ sector.byte 33 = 0x2E then
      let dotdot := (dirEntryAt sector 32).setCluster newParentCluster
      let _ ← fat32WriteDirSector moved 0 (sector.patch 32 (dotdot.bytes 0 32))
      pure ()
    else pure ()

def fat32Rename (fuel : Nat) (oldpath newpath : List UInt8) : Fat32M Bool := do
  let s ← get
  if !s.ready then pure false
  else
    match ← fat32ResolveParent fuel oldpath with
    | none => pure false
    | some (oldParent, oldComponent) =>
      if oldComponent.isEmpty then pure false
      else
        match ← fat32FindItemInDir fuel oldParent oldComponent with
        | none => pure false
        | some oldItem =>
          match ← fat32ResolveParent fuel newpath with
          | none => pure false
          | some (newParent, newComponent) =>
            if newComponent.isEmpty then pure false
            else
              match ← fat32FindEntryInDir fuel newParent newComponent with
              | some _ => pure false
              | none => fat32MoveEntry oldParent oldItem newParent newComponent
where
  /-- `fat32_rename` once both places are known and the new one is free -/
  fat32MoveEntry (oldParent : Fat32DirRef) (oldItem : Fat32DirItem) (newParent : Fat32DirRef)
      (newComponent : List UInt8) : Fat32M Bool := do
    let isDir := oldItem.entry.isDirectory
    let oldCluster := oldItem.entry.cluster
    if isDir && !newParent.isRoot && newParent.startCluster == oldCluster then pure false
    else
      change fat32ClearReadCache
      match ← fat32CreateNamedEntry fuel newParent newComponent with
      | none => pure false
      | some newSlot =>
        let _ ← fat32WriteSlot { newSlot with entry := fat32RenamedEntry newSlot.entry oldItem.entry }
        fat32DeleteItemSlots oldItem
        let sameDir := oldParent.isRoot == newParent.isRoot &&
          (oldParent.isRoot || oldParent.startCluster == newParent.startCluster)
        if isDir && !sameDir then
          fat32FixDotDot oldCluster (if newParent.isRoot then 0 else newParent.startCluster)
        else pure ()
        pure true

/-! ## The append-only writer -/

/-- `fat32_append_flush_cluster`.  Only the last flush finds less than a cluster pending, and
it fills the rest with zeros. -/
def fat32AppendFlushCluster : Fat32M Unit := do
  let cluster ← fat32AllocateCluster
  if cluster = 0 then pure ()
  else
    change fun s =>
      { s with appendFirstCluster := if s.appendFirstCluster = 0 then cluster else s.appendFirstCluster }
    let s ← get
    fat32LinkCluster s.appendPrevCluster cluster
    change fun s => { s with appendPrevCluster := cluster }
    fat32WriteClusterData cluster s.appendClusterBuf

def fat32AppendOpen (fuel : Nat) (path : List UInt8) : Fat32M Int := do
  let s ← get
  if !s.ready then pure (-1)
  else
    match ← fat32ResolveParent fuel path with
    | none => pure (-1)
    | some (parent, component) =>
      if component.isEmpty then pure (-1)
      else
        change fat32ClearReadCache
        match ← fat32OpenForWrite fuel parent component (-2) (-3) with
        | .error code => pure code
        | .ok slot =>
          change fun s =>
            { s with
              appendParent := parent
              appendSlot := slot
              appendFirstCluster := 0
              appendPrevCluster := 0
              appendSize := 0
              appendClusterBuf := []
              appendOpen := true }
          pure 0

/-- The loop of `fat32_append_write`. -/
def fat32AppendFrom : Nat → List UInt8 → Fat32M Unit
  | 0, _ => outOfFuel
  | fuel + 1, src => do
      if src.isEmpty then pure ()
      else
        let s ← get
        let clusterBytes := s.bpb.sectorsPerCluster * 512
        let n := min src.length (clusterBytes - s.appendClusterBuf.length)
        change fun s =>
          { s with
            appendClusterBuf := s.appendClusterBuf ++ src.take n
            appendSize := w32 (s.appendSize + n) }
        if s.appendClusterBuf.length + n = clusterBytes then
          fat32AppendFlushCluster
          change fun s => { s with appendClusterBuf := [] }
        else pure ()
        fat32AppendFrom fuel (src.drop n)

def fat32AppendWrite (fuel : Nat) (buffer : List UInt8) : Fat32M Int := do
  let s ← get
  if !s.appendOpen then pure (-1)
  else
    fat32AppendFrom fuel buffer
    pure (int32 buffer.length)

def fat32AppendClose : Fat32M Int := do
  let s ← get
  if !s.appendOpen then pure (-1)
  else
    if s.appendClusterBuf.isEmpty then pure () else fat32AppendFlushCluster
    let s ← get
    let slot := s.appendSlot
    let entry := ((slot.entry.setAttr 0).setCluster s.appendFirstCluster).setFileSize s.appendSize
    change fun s => { s with appendSlot := { slot with entry := entry } }
    let ok ← fat32WriteSlot { slot with entry := entry }
    change fun s => { s with appendOpen := false }
    if ok then pure (int32 s.appendSize) else pure (-2)

/-! ## Formatting -/

/-- The sectors per cluster `fat32_format` chooses. -/
def fat32FormatSpc (sectorCount : Nat) : Nat :=
  let volumeBytes := sectorCount * 512 % 2 ^ 64
  if volumeBytes < 256 * 1024 * 1024 then 8
  else if volumeBytes ≤ 2 * 1024 * 1024 * 1024 then 16
  else 32

/-- The data sectors of a volume whose two FATs have `fatSize` sectors each, `uint32_t`. -/
def fat32FormatDataSectors (sectorCount fatSize : Nat) : Nat :=
  w32 (w32 sectorCount + 2 ^ 32 - (32 + 2 * fatSize))

/-- The loop of `fat32_format` that looks for the size of a FAT. -/
def fat32FormatFatSize (sectorCount spc : Nat) : Nat → Nat → Option Nat
  | 0, fatSize => some fatSize
  | n + 1, fatSize =>
    if sectorCount ≤ 32 + 2 * fatSize then none
    else
      let clusterCount := fat32FormatDataSectors sectorCount fatSize / spc
      let newFatSize := ((clusterCount + 2) * 4 + 511) / 512
      if newFatSize = fatSize then some fatSize
      else fat32FormatFatSize sectorCount spc n newFatSize

/-- The boot sector `fat32_format` writes. -/
def fat32FormatBoot (spc sectorCount fatSize : Nat) : Sector :=
  let boot : Sector := Block.zero
  let boot := boot.patch 0 [0xEB, 0x58, 0x90]
  -- "MSDOS5.0"
  let boot := boot.patch 3 [0x4D, 0x53, 0x44, 0x4F, 0x53, 0x35, 0x2E, 0x30]
  let boot := boot.patch 11 (le16 512)
  let boot := boot.patch 13 [UInt8.ofNat spc]
  let boot := boot.patch 14 (le16 32)
  let boot := boot.patch 16 [2]
  let boot := boot.patch 21 [0xF8]
  let boot := boot.patch 24 (le16 32)
  let boot := boot.patch 26 (le16 255)
  let boot := boot.patch 32 (le32 (w32 sectorCount))
  let boot := boot.patch 36 (le32 fatSize)
  let boot := boot.patch 44 (le32 2)
  let boot := boot.patch 48 (le16 1)
  let boot := boot.patch 50 (le16 6)
  let boot := boot.patch 64 [0x80]
  let boot := boot.patch 66 [0x29]
  let boot := boot.patch 67 (le32 0x1234ABCD)
  -- "NO NAME    " and "FAT32   "
  let boot := boot.patch 71 [0x4E, 0x4F, 0x20, 0x4E, 0x41, 0x4D, 0x45, 0x20, 0x20, 0x20, 0x20]
  let boot := boot.patch 82 [0x46, 0x41, 0x54, 0x33, 0x32, 0x20, 0x20, 0x20]
  boot.patch 510 (le16 0xAA55)

def fat32FormatReserved (s : Fat32) (base : Nat) : Fat32 :=
  ataWriteSector s base (((ataReadSector s base).patch 0 (le32 0x0FFFFFF8)).patch 4 (le32 0x0FFFFFFF))

/-- The writes of `fat32_format` once the layout is known. -/
def fat32FormatWrite (s : Fat32) (volumeLba sectorCount spc fatSize : Nat) : Fat32 :=
  let boot := fat32FormatBoot spc sectorCount fatSize
  let s := ataWriteSector s volumeLba boot
  let s := ataWriteSector s (w32 (volumeLba + 6)) boot
  let fat0 := w32 (volumeLba + 32)
  let fat1 := w32 (volumeLba + 32 + fatSize)
  let s := ataWriteSectors s fat0 (List.replicate fatSize Block.zero)
  let s := ataWriteSectors s fat1 (List.replicate fatSize Block.zero)
  let s := fat32FormatReserved s fat0
  let s := fat32FormatReserved s fat1
  ataWriteSectors s (w32 (volumeLba + (32 + 2 * fatSize))) (List.replicate spc Block.zero)

/-- The layout `fat32_format` computes: sectors per cluster and sectors per FAT. -/
def fat32FormatLayout (sectorCount sectorSize : Nat) : Option (Nat × Nat) :=
  if sectorSize ≠ 512 ∨ sectorCount < 36 then none
  else
    let spc := fat32FormatSpc sectorCount
    match fat32FormatFatSize sectorCount spc 16 1 with
    | none => none
    | some fatSize =>
      if sectorCount ≤ 32 + 2 * fatSize then none
      else if fat32FormatDataSectors sectorCount fatSize / spc < 1 then none
      else some (spc, fatSize)

def fat32Format (volumeLba sectorCount sectorSize : Nat) (s : Fat32) : Bool × Fat32 :=
  match fat32FormatLayout sectorCount sectorSize with
  | none => (false, s)
  | some (spc, fatSize) => (true, fat32FormatWrite s volumeLba sectorCount spc fatSize)

end Monios.Model
