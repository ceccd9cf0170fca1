import Monios.Model.Fat32.Volume

/-!
# The ext2 driver: state, block cache and mounting

The first part of `fs/extfs.c`: the driver's globals, the write-back cache of eight blocks
(`extfs_read_block`, `extfs_write_block`, `extfs_sync`) and `extfs_init`.

The device answers every request, also the request to flush its own cache, so that
`extfs_flush_block` fails for addresses from `2 ^ 28` on only.  A block buffer has 4096
bytes, of which the first `block_size` are copied and written.  What an earlier call has left
in a buffer behind these bytes is not kept here: they are zero after a read.

Left out are the read-only flag, the state and the feature words of the super block, which
nothing reads, and the status texts.
-/

set_option autoImplicit false

namespace Monios.Model

open Monios.Library

/-- A buffer for a block, `uint8_t [4096]`. -/
abbrev ExtBlock := Block 4096

/-- `extfs_info_t`, the fields that are used. -/
structure ExtfsInfo where
  present : Bool
  volumeLba : Nat
  inodesCount : Nat
  blocksCount : Nat
  freeBlocks : Nat
  freeInodes : Nat
  blockSize : Nat
  blocksPerGroup : Nat
  inodesPerGroup : Nat
  inodeSize : Nat
  deriving DecidableEq

/-- `memset(&g_extfs_info, 0, sizeof(g_extfs_info))` -/
def ExtfsInfo.zero : ExtfsInfo := ⟨false, 0, 0, 0, 0, 0, 0, 0, 0, 0⟩

/-- One of the eight entries of `g_cache_block`, `g_cache_data`, `g_cache_lru` and
`g_cache_dirty`. -/
structure ExtSlot where
  block : Nat
  data : ExtBlock
  lru : Nat
  dirty : Bool

/-- The globals of `extfs.c` and the disk under them. -/
structure Extfs where
  disk : Nat → Sector
  info : ExtfsInfo
  block : ExtBlock
  inodeBuf : ExtBlock
  cache : Fin 8 → ExtSlot
  cacheCounter : Nat
  writeRejected : Bool

def Extfs.unmounted (disk : Nat → Sector) : Extfs where
  disk := disk
  info := ExtfsInfo.zero
  block := Block.zero
  inodeBuf := Block.zero
  cache := fun _ => ⟨0, Block.zero, 0, false⟩
  cacheCounter := 0
  writeRejected := false

abbrev ExtM := StateT Extfs Option

def ExtM.change (f : Extfs → Extfs) : ExtM Unit := fun s => some ((), f s)

/-- The first `n` bytes of a buffer. -/
def trimBlock (n : Nat) (buffer : ExtBlock) : ExtBlock := fun i => if i.val < n then buffer i else 0

/-! ## The block cache -/

/-- The number of a slot that holds no block, `0xFFFFFFFF`. -/
def extNoBlock : Nat := 0xFFFFFFFF

/-- `extfs_cache_init`.  The data and the counter stay. -/
def extfsCacheInit (s : Extfs) : Extfs :=
  { s with
    writeRejected := false
    cache := fun i => { s.cache i with block := extNoBlock, lru := 0, dirty := false } }

def extfsCacheFind (s : Extfs) (block : Nat) : Option (Fin 8) :=
  (List.finRange 8).find? fun i => (s.cache i).block == block

theorem neZero_eight : NeZero 8 := ⟨by decide⟩

attribute [local instance] neZero_eight in
def extfsCacheFindVictim (s : Extfs) : Fin 8 :=
  (List.finRange 8).foldl (fun victim i => if (s.cache i).lru < (s.cache victim).lru then i else victim) 0

/-- The sectors of a block, `block_size / 512`. -/
def ExtfsInfo.sectors (info : ExtfsInfo) : Nat := info.blockSize / 512

/-- The `i`-th sector of a block buffer. -/
def sectorOf (data : ExtBlock) (i : Nat) : Sector := fun j => data.byte (512 * i + j.val)

/-- The device with `sectors` sectors of a buffer written from `lba` on. -/
def writeSectors (disk : Nat → Sector) (lba : Nat) (data : ExtBlock) (sectors : Nat) :
    Nat → Sector :=
  fun x => if lba ≤ x ∧ x < lba + sectors then sectorOf data (x - lba) else disk x

def extfsFlushBlock (s : Extfs) (block : Nat) (data : ExtBlock) : Option Extfs :=
  let sectors := s.info.sectors
  let lba := s.info.volumeLba + block * sectors
  if sectors = 0 ∨ 8 < sectors ∨ 0x10000000 < lba + sectors then none
  else some { s with disk := writeSectors s.disk lba data sectors }

def extfsCacheFlushIdx (s : Extfs) (idx : Fin 8) : Option Extfs :=
  if (s.cache idx).dirty && (s.cache idx).block != extNoBlock then
    (extfsFlushBlock s (s.cache idx).block (s.cache idx).data).map fun s =>
      { s with cache := Function.update s.cache idx { s.cache idx with dirty := false } }
  else some s

def readBlockFrom (disk : Nat → Sector) (lba sectors : Nat) : ExtBlock :=
  fun i => if i.val < 512 * sectors then (disk (w32 (lba + i.val / 512))).byte (i.val % 512) else 0

def extfsDiskBlock (s : Extfs) (block : Nat) : ExtBlock :=
  readBlockFrom s.disk (w32 (s.info.volumeLba + block * s.info.sectors)) s.info.sectors

def extfsSetSlot (s : Extfs) (i : Fin 8) (block : Nat) (data : ExtBlock) (dirty : Bool) : Extfs :=
  { s with
    cacheCounter := w32 (s.cacheCounter + 1)
    cache := Function.update s.cache i ⟨block, data, w32 (s.cacheCounter + 1), dirty⟩ }

/-- `extfs_read_block_cached`: the block that is copied into the buffer. -/
def extfsReadBlockCached (block : Nat) (s : Extfs) : ExtBlock × Extfs :=
  match extfsCacheFind s block with
  | some i =>
    let slot := s.cache i
    (trimBlock s.info.blockSize slot.data, extfsSetSlot s i slot.block slot.data slot.dirty)
  | none =>
    let buffer := extfsDiskBlock s block
    let victim := extfsCacheFindVictim s
    match extfsCacheFlushIdx s victim with
    -- the victim stays dirty, and the block that was read is not cached
    | none => (buffer, s)
    | some s => (buffer, extfsSetSlot s victim block (trimBlock s.info.blockSize buffer) false)

def extfsWriteBlockCached (block : Nat) (buffer : ExtBlock) (s : Extfs) : Extfs :=
  match extfsCacheFind s block with
  | some i => extfsSetSlot s i block (trimBlock s.info.blockSize buffer) true
  | none =>
    let victim := extfsCacheFindVictim s
    match extfsCacheFlushIdx s victim with
    | none => { s with writeRejected := true }
    | some s => extfsSetSlot s victim block (trimBlock s.info.blockSize buffer) true

/-- `extfs_read_block(block, g_extfs_block)` -/
def extfsReadBlock (block : Nat) : ExtM ExtBlock := fun s =>
  let (buffer, s) := extfsReadBlockCached block s
  some (buffer, { s with block := buffer })

/-- `extfs_read_block(block, g_extfs_inode_buf)` -/
def extfsReadInodeBuf (block : Nat) : ExtM ExtBlock := fun s =>
  let (buffer, s) := extfsReadBlockCached block s
  some (buffer, { s with inodeBuf := buffer })

/-- A change of `g_extfs_block` followed by `extfs_write_block(block, g_extfs_block)`. -/
def extfsWriteBlock (block : Nat) (buffer : ExtBlock) : ExtM Unit :=
  ExtM.change fun s => extfsWriteBlockCached block buffer { s with block := buffer }

/-- The same for `g_extfs_inode_buf`. -/
def extfsWriteInodeBuf (block : Nat) (buffer : ExtBlock) : ExtM Unit :=
  ExtM.change fun s => extfsWriteBlockCached block buffer { s with inodeBuf := buffer }

/-! ## Mounting -/

/-- `extfs_read_super`: the two sectors of the super block. -/
def extfsReadSuper (disk : Nat → Sector) (volumeLba : Nat) : Block 1024 := fun i =>
  (disk (w32 (volumeLba + 2 + i.val / 512))).byte (i.val % 512)

/-- `x & (x - 1)` is zero. -/
def isPowerOfTwo (x : Nat) : Bool := Nat.land x (x - 1) == 0

/-- The fields `extfs_parse_super` takes from the super block. -/
def ExtfsInfo.ofSuper (volumeLba : Nat) (super : Block 1024) : ExtfsInfo where
  present := true
  volumeLba := volumeLba
  inodesCount := super.u32 0
  blocksCount := super.u32 4
  freeBlocks := super.u32 12
  freeInodes := super.u32 16
  blockSize := 1024 * 2 ^ min (super.u32 24) 3
  blocksPerGroup := super.u32 32
  inodesPerGroup := super.u32 40
  inodeSize := if super.u16 88 = 0 then 128 else super.u16 88

/-- The checks of `extfs_parse_super` behind the magic number. -/
def ExtfsInfo.superOk (info : ExtfsInfo) (super : Block 1024) : Bool :=
  decide (super.u32 24 ≤ 2) && info.inodesPerGroup != 0 && info.blocksPerGroup != 0 &&
    decide (128 ≤ info.inodeSize) && decide (info.inodeSize ≤ info.blockSize) &&
    isPowerOfTwo info.inodeSize && decide (info.inodesPerGroup ≤ 0xFFFFFFFF / info.inodeSize)

/-- `extfs_read_super(volume_lba, super) && extfs_parse_super(volume_lba, super)`.  A super block
that is refused leaves its fields behind. -/
def extfsTryVolume (volumeLba : Nat) (s : Extfs) : Bool × Extfs :=
  let super := extfsReadSuper s.disk volumeLba
  if super.u16 56 = 0xEF53 then
    let info := ExtfsInfo.ofSuper volumeLba super
    if info.superOk super then (true, extfsCacheInit { s with info := info })
    else (false, { s with info := info })
  else (false, s)

/-- The loop of `extfs_init` over the partition table, with the entries `entries` left. -/
def extfsTryPartitions (sector : Sector) : List Nat → Extfs → Bool × Extfs
  | [], s => (false, s)
  | i :: rest, s =>
    let lba := sector.u32 (446 + i * 16 + 8)
    if sector.byte (446 + i * 16 + 4) == 0x83 && lba != 0 then
      match extfsTryVolume lba s with
      | (true, s) => (true, s)
      | (false, s) => extfsTryPartitions sector rest s
    else extfsTryPartitions sector rest s

/-- `extfs_init`; `mountHint` is what `file_mount_partition_hint` answers. -/
def extfsInit (mountHint : Int) (s : Extfs) : Bool × Extfs :=
  let s := { s with info := ExtfsInfo.zero }
  if 0 ≤ mountHint then extfsTryVolume mountHint.toNat s
  else
    match extfsTryVolume 0 s with
    | (true, s) => (true, s)
    | (false, s) =>
      let sector := s.disk 0
      if sector.u16 510 = 0xAA55 then extfsTryPartitions sector (List.range 4) s else (false, s)

end Monios.Model
