import Mathlib.Tactic.IntervalCases
import Monios.Model.Extfs.Volume

/-!
# The block cache of the ext2 driver on a device that fails

The functions of `fs/extfs.c` between the driver and the device: `ata_write_sector`,
`ata_flush_device_cache` and the cache of eight blocks over them.  The device caches what is written
to it.  It may fail any write and any request to save its cache, and it may save what it likes
whenever it is asked something; `answers` says what it does, and is arbitrary.  A read succeeds.

The volume is on the device behind the ATA ports (`g_extfs_blockdev` below 0) or on one of the block
device layer.  The command that saves the cache goes to the ports in both cases.

As in `Monios.Model.Extfs.Volume`, the bytes of a slot behind `block_size` are not kept.
-/

set_option autoImplicit false

namespace Monios.Model

open Monios.Library

/-- What the device does with a request: whether it carries it out, what a write that fails leaves
in its sector, and which sectors it saves. -/
structure ExtDeviceAnswer where
  ok : Bool
  torn : Sector
  saved : Nat → Bool

structure ExtDevice where
  store : WriteCache Nat Sector
  answers : Nat → ExtDeviceAnswer
  requests : Nat
  /-- `g_extfs_blockdev >= 0` -/
  blockdev : Bool
  atPorts : Bool
  writeThrough : Bool

/-- `block_size` and `volume_lba` of `g_extfs_info` with a block size that `extfs_parse_super`
accepts, the device and the globals of the cache. -/
structure ExtCache where
  device : ExtDevice
  volumeLba : Nat
  blockSize : Nat
  slots : Fin 8 → ExtSlot
  counter : Nat
  rejected : Bool
  sized : blockSize = 1024 ∨ blockSize = 2048 ∨ blockSize = 4096

namespace ExtDevice

/-- `ata_read_sector`; the ports take 28 bits of the address. -/
def readSector (d : ExtDevice) (lba : Nat) : Sector :=
  if d.blockdev then d.store.visible (w32 lba) else d.store.visible (w32 lba % 2 ^ 28)

def writeSector (d : ExtDevice) (lba : Nat) (data : Sector) : Bool × ExtDevice :=
  if !d.blockdev && 0x0FFFFFFF < lba then (false, d)
  else
    let answer := d.answers d.requests
    let written := d.store.put lba (if answer.ok then data else answer.torn)
    (answer.ok, { d with
      requests := d.requests + 1
      store := written.save fun x => answer.saved x || (d.writeThrough && x == lba) })

/-- `ata_flush_device_cache` -/
def flush (d : ExtDevice) : Bool × ExtDevice :=
  let answer := d.answers d.requests
  (answer.ok, { d with
    requests := d.requests + 1
    store := d.store.save fun x => answer.saved x || (answer.ok && (!d.blockdev || d.atPorts)) })

/-- The loop of `extfs_flush_block` from the sector `i` on, with `n` sectors left. -/
def writeSectors (lba : Nat) (data : ExtBlock) : Nat → Nat → ExtDevice → Bool × ExtDevice
  | _, 0, d => (true, d)
  | i, n + 1, d =>
    match d.writeSector (w32 (w32 lba + i)) (sectorOf data i) with
    | (true, d) => writeSectors lba data (i + 1) n d
    | (false, d) => (false, d)

end ExtDevice

namespace ExtCache

/-- `g_extfs_info.block_size / 512` -/
def sectors (s : ExtCache) : Nat := s.blockSize / 512

def cacheInit (s : ExtCache) : ExtCache :=
  { s with
    rejected := false
    slots := fun i => { s.slots i with block := extNoBlock, lru := 0, dirty := false } }

def cacheFind (s : ExtCache) (block : Nat) : Option (Fin 8) :=
  (List.finRange 8).find? fun i => (s.slots i).block == block

attribute [local instance] neZero_eight in
def cacheFindVictim (s : ExtCache) : Fin 8 :=
  (List.finRange 8).foldl (fun victim i => if (s.slots i).lru < (s.slots victim).lru then i else victim) 0

def flushBlock (s : ExtCache) (block : Nat) (data : ExtBlock) : Bool × ExtCache :=
  let lba := s.volumeLba + block * s.sectors
  if s.sectors = 0 ∨ 4096 / 512 < s.sectors ∨ 0x10000000 < lba + s.sectors then (false, s)
  else
    match ExtDevice.writeSectors lba data 0 s.sectors s.device with
    | (false, d) => (false, { s with device := d })
    | (true, d) => (d.flush.1, { s with device := d.flush.2 })

/-- `g_cache_dirty[idx] = false` -/
def setClean (s : ExtCache) (idx : Fin 8) : ExtCache :=
  { s with slots := Function.update s.slots idx { s.slots idx with dirty := false } }

def cacheFlushIdx (s : ExtCache) (idx : Fin 8) : Bool × ExtCache :=
  if (s.slots idx).dirty && (s.slots idx).block != extNoBlock then
    match s.flushBlock (s.slots idx).block (s.slots idx).data with
    | (true, s) => (true, s.setClean idx)
    | (false, s) => (false, s)
  else (true, s)

/-- The loop of `extfs_sync` over the slots `idxs`. -/
def syncSlots : List (Fin 8) → Bool × ExtCache → Bool × ExtCache
  | [], p => p
  | idx :: idxs, (ok, s) =>
    let (flushed, s) := s.cacheFlushIdx idx
    syncSlots idxs (ok && flushed, s)

def sync (s : ExtCache) : Bool × ExtCache := syncSlots (List.finRange 8) (!s.rejected, s)

def setSlot (s : ExtCache) (i : Fin 8) (block : Nat) (data : ExtBlock) (dirty : Bool) : ExtCache :=
  { s with
    counter := w32 (s.counter + 1)
    slots := Function.update s.slots i ⟨block, data, w32 (s.counter + 1), dirty⟩ }

/-- The sectors of a block as `extfs_read_block_cached` reads them. -/
def readSectors (s : ExtCache) (block : Nat) : ExtBlock := fun i =>
  if i.val < 512 * s.sectors then
    (s.device.readSector (w32 (s.volumeLba + block * s.sectors) + i.val / 512)).byte (i.val % 512)
  else 0

/-- `extfs_read_block_cached`: the block that is copied into the buffer. -/
def readBlockCached (s : ExtCache) (block : Nat) : ExtBlock × ExtCache :=
  match s.cacheFind block with
  | some i => (trimBlock s.blockSize (s.slots i).data, s.setSlot i (s.slots i).block (s.slots i).data (s.slots i).dirty)
  | none =>
    let buffer := s.readSectors block
    let victim := s.cacheFindVictim
    match s.cacheFlushIdx victim with
    -- the victim stays dirty, and the block that was read is not cached
    | (false, s) => (buffer, s)
    | (true, s) => (buffer, s.setSlot victim block (trimBlock s.blockSize buffer) false)

def writeBlockCached (s : ExtCache) (block : Nat) (buffer : ExtBlock) : ExtCache :=
  match s.cacheFind block with
  | some i => s.setSlot i (s.slots i).block (trimBlock s.blockSize buffer) true
  | none =>
    let victim := s.cacheFindVictim
    match s.cacheFlushIdx victim with
    | (false, s) => { s with rejected := true }
    | (true, s) => s.setSlot victim block (trimBlock s.blockSize buffer) true

end ExtCache

end Monios.Model
