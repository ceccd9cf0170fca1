import Monios.Model.Extfs.Volume

/-!
# The ext2 driver: block groups, bitmaps and inodes

Group descriptors, the allocation of blocks and inodes, reading and writing inodes, and the
block map of a file.

All routines use the one block buffer `g_extfs_block`, and a pointer into it sees what the
routines called in between leave there; the state keeps the buffer for this reason.
Only the first block of the descriptor table is ever read, and block 0 is the
first block of group 0 for every block size.
-/

set_option autoImplicit false

namespace Monios.Model

open Monios.Library

/-! ## Group descriptors -/

def extfsGetGroupDescBlock (info : ExtfsInfo) : Nat := if info.blockSize = 1024 then 2 else 1

def extfsReadGroupDesc (group : Nat) : ExtM (Option (Block 32)) := do
  let s ← get
  let offset := w32 (group * 32)
  let buffer ← extfsReadBlock (extfsGetGroupDescBlock s.info)
  if s.info.blockSize < w32 (offset + 32) then pure none
  else pure (some fun i => buffer.byte (offset + i.val))

def extfsGroupField (field : Block 32 → Nat) (group : Nat) : ExtM Nat := do
  match ← extfsReadGroupDesc group with
  | some desc => pure (field desc)
  | none => pure 0

/-- `extfs_get_block_bitmap_block`, `extfs_get_inode_bitmap_block` and
`extfs_get_inode_table_block` -/
def extfsGetBlockBitmapBlock : Nat → ExtM Nat := extfsGroupField fun desc => desc.u32 0

def extfsGetInodeBitmapBlock : Nat → ExtM Nat := extfsGroupField fun desc => desc.u32 4

def extfsGetInodeTableBlock : Nat → ExtM Nat := extfsGroupField fun desc => desc.u32 8

/-- `extfs_get_group_free_blocks` and `extfs_get_group_free_inodes` -/
def extfsGetGroupFreeBlocks : Nat → ExtM Nat := extfsGroupField fun desc => desc.u16 12

def extfsGetGroupFreeInodes : Nat → ExtM Nat := extfsGroupField fun desc => desc.u16 14

/-- A counter of a group descriptor, at `field` bytes from its start, set to `count`. -/
def extfsSetGroupCount (field group count : Nat) : ExtM Unit := do
  let s ← get
  let gdt := extfsGetGroupDescBlock s.info
  let buffer ← extfsReadBlock gdt
  extfsWriteBlock gdt (buffer.patch (w32 (group * 32) + field) (le16 count))

/-- `extfs_set_group_free_blocks` and `extfs_set_group_free_inodes` -/
def extfsSetGroupFreeBlocks : Nat → Nat → ExtM Unit := extfsSetGroupCount 12

def extfsSetGroupFreeInodes : Nat → Nat → ExtM Unit := extfsSetGroupCount 14

def extfsGetTotalGroups (info : ExtfsInfo) : Nat :=
  info.blocksCount / info.blocksPerGroup + if info.blocksCount % info.blocksPerGroup ≠ 0 then 1 else 0

/-! ## Bitmaps -/

def extfsTestBit (bitmap : ExtBlock) (bit : Nat) : Bool :=
  (bitmap.byte (bit / 8)).toNat.testBit (bit % 8)

def extfsSetBit (bitmap : ExtBlock) (bit : Nat) : ExtBlock :=
  bitmap.patch (bit / 8) [UInt8.ofNat ((bitmap.byte (bit / 8)).toNat ||| 2 ^ (bit % 8))]

def extfsClearBit (bitmap : ExtBlock) (bit : Nat) : ExtBlock :=
  bitmap.patch (bit / 8) [UInt8.ofNat ((bitmap.byte (bit / 8)).toNat &&& (255 ^^^ 2 ^ (bit % 8)))]

/-- The first of the bits below `n` that is not set. -/
def extfsFirstClear (bitmap : ExtBlock) (n : Nat) : Option Nat :=
  (List.range n).find? fun i => !extfsTestBit bitmap i

def extfsBlocksInGroup (info : ExtfsInfo) (group : Nat) : Nat :=
  if group = extfsGetTotalGroups info - 1 then info.blocksCount - group * info.blocksPerGroup
  else info.blocksPerGroup

/-- A 32-bit value that comes back as an `int32_t`, where a negative one is an error. -/
def nonNegative (n : Nat) : Option Nat := if n < 2 ^ 31 then some n else none

/-- The part of `extfs_alloc_block` for a group in whose bitmap the bit `i` is clear; the bitmap
is in the buffer. -/
def extfsTakeBlock (group bitmapBlock : Nat) (bitmap : ExtBlock) (i : Nat) : ExtM (Option Nat) := do
  extfsWriteBlock bitmapBlock (extfsSetBit bitmap i)
  let freeBlocks ← extfsGetGroupFreeBlocks group
  if 0 < freeBlocks then extfsSetGroupFreeBlocks group (freeBlocks - 1) else pure ()
  ExtM.change fun s => { s with info := { s.info with freeBlocks := s.info.freeBlocks - 1 } }
  let s ← get
  let blockNum := w32 (group * s.info.blocksPerGroup + i)
  extfsWriteBlock blockNum Block.zero
  pure (nonNegative blockNum)

/-- The loop of `extfs_alloc_block` over the groups. -/
def extfsAllocBlockFrom : List Nat → ExtM (Option Nat)
  | [] => pure none
  | group :: rest => do
      if (← extfsGetGroupFreeBlocks group) = 0 then extfsAllocBlockFrom rest
      else
        let bitmapBlock ← extfsGetBlockBitmapBlock group
        if bitmapBlock = 0 then extfsAllocBlockFrom rest
        else
          let bitmap ← extfsReadBlock bitmapBlock
          let s ← get
          match extfsFirstClear bitmap (extfsBlocksInGroup s.info group) with
          | some i => extfsTakeBlock group bitmapBlock bitmap i
          | none => extfsAllocBlockFrom rest

def extfsGroupOrder (info : ExtfsInfo) (preferredGroup : Nat) : List Nat :=
  (List.range (extfsGetTotalGroups info)).map fun g => w32 (preferredGroup + g) % extfsGetTotalGroups info

def extfsAllocBlock (preferredGroup : Nat) : ExtM (Option Nat) := do
  let s ← get
  extfsAllocBlockFrom (extfsGroupOrder s.info preferredGroup)

def extfsFreeBlock (blockNum : Nat) : ExtM Unit := do
  let s ← get
  let group := blockNum / s.info.blocksPerGroup
  let bitmapBlock ← extfsGetBlockBitmapBlock group
  if bitmapBlock = 0 then pure ()
  else
    let bitmap ← extfsReadBlock bitmapBlock
    extfsWriteBlock bitmapBlock (extfsClearBit bitmap (blockNum % s.info.blocksPerGroup))
    let freeBlocks ← extfsGetGroupFreeBlocks group
    extfsSetGroupFreeBlocks group (freeBlocks + 1)
    ExtM.change fun s => { s with info := { s.info with freeBlocks := w32 (s.info.freeBlocks + 1) } }

/-- The part of `extfs_alloc_inode` for a group in whose bitmap the bit `i` is clear. -/
def extfsTakeInode (group bitmapBlock : Nat) (bitmap : ExtBlock) (i : Nat) : ExtM (Option Nat) := do
  extfsWriteBlock bitmapBlock (extfsSetBit bitmap i)
  let freeInodes ← extfsGetGroupFreeInodes group
  if 0 < freeInodes then extfsSetGroupFreeInodes group (freeInodes - 1) else pure ()
  ExtM.change fun s => { s with info := { s.info with freeInodes := s.info.freeInodes - 1 } }
  let s ← get
  pure (nonNegative (w32 (group * s.info.inodesPerGroup + (i + 1))))

/-- The loop of `extfs_alloc_inode` over the groups. -/
def extfsAllocInodeFrom : List Nat → ExtM (Option Nat)
  | [] => pure none
  | group :: rest => do
      if (← extfsGetGroupFreeInodes group) = 0 then extfsAllocInodeFrom rest
      else
        let bitmapBlock ← extfsGetInodeBitmapBlock group
        if bitmapBlock = 0 then extfsAllocInodeFrom rest
        else
          let bitmap ← extfsReadBlock bitmapBlock
          let s ← get
          match extfsFirstClear bitmap s.info.inodesPerGroup with
          | some i => extfsTakeInode group bitmapBlock bitmap i
          | none => extfsAllocInodeFrom rest

def extfsAllocInode (preferredGroup : Nat) : ExtM (Option Nat) := do
  let s ← get
  extfsAllocInodeFrom (extfsGroupOrder s.info preferredGroup)

def extfsFreeInode (inodeNum : Nat) : ExtM Unit := do
  let s ← get
  let number := w32 (inodeNum + (2 ^ 32 - 1))
  let group := number / s.info.inodesPerGroup
  let bitmapBlock ← extfsGetInodeBitmapBlock group
  if bitmapBlock = 0 then pure ()
  else
    let bitmap ← extfsReadBlock bitmapBlock
    extfsWriteBlock bitmapBlock (extfsClearBit bitmap (number % s.info.inodesPerGroup))
    let freeInodes ← extfsGetGroupFreeInodes group
    extfsSetGroupFreeInodes group (freeInodes + 1)
    ExtM.change fun s => { s with info := { s.info with freeInodes := w32 (s.info.freeInodes + 1) } }

/-! ## Inodes -/

/-- The 128 bytes of an `ext_inode_t`. -/
abbrev ExtInode := Block 128

namespace ExtInode

def mode (inode : ExtInode) : Nat := inode.u16 0

def size (inode : ExtInode) : Nat := inode.u32 4

/-- `inode->block[i]` -/
def block (inode : ExtInode) (i : Nat) : Nat := inode.u32 (40 + 4 * i)

def setSize (inode : ExtInode) (size : Nat) : ExtInode := inode.patch 4 (le32 size)

def setLinksCount (inode : ExtInode) (count : Nat) : ExtInode := inode.patch 26 (le16 count)

def setBlock (inode : ExtInode) (i : Nat) (block : Nat) : ExtInode :=
  inode.patch (40 + 4 * i) (le32 block)

/-- `inode->mtime = extfs_get_current_time()` and the same for `ctime`; the time is a constant. -/
def touchMtime (inode : ExtInode) : ExtInode := inode.patch 16 (le32 0x60000000)

def touchCtime (inode : ExtInode) : ExtInode := inode.patch 12 (le32 0x60000000)

/-- `extfs_inode_is_directory` -/
def isDirectory (inode : ExtInode) : Bool := inode.mode / 0x1000 == 0x4

/-- The inode that `extfs_write_file` and `extfs_mkdir` start from. -/
def fresh (mode links : Nat) : ExtInode :=
  let inode : ExtInode := (Block.zero.patch 0 (le16 mode)).patch 8 (le32 0x60000000)
  (inode.setLinksCount links).touchCtime.touchMtime

end ExtInode

/-- Where an inode is stored: the block and the byte in it.  `table` is the first block of the
inode table of its group. -/
def extfsInodePlace (info : ExtfsInfo) (inodeNum table : Nat) : Nat × Nat :=
  let offset := w32 ((inodeNum - 1) % info.inodesPerGroup * info.inodeSize)
  (w32 (table + offset / info.blockSize), offset % info.blockSize)

def extfsWriteInodeRaw (inodeNum : Nat) (inode : ExtInode) : ExtM Bool := do
  if inodeNum = 0 then pure false
  else
    let s ← get
    let table ← extfsGetInodeTableBlock ((inodeNum - 1) / s.info.inodesPerGroup)
    if table = 0 then pure false
    else
      let (block, offset) := extfsInodePlace s.info inodeNum table
      let buffer ← extfsReadInodeBuf block
      extfsWriteInodeBuf block (buffer.patch offset (inode.bytes 0 128))
      pure true

def extfsReadInodeRaw (inodeNum : Nat) : ExtM (Option ExtInode) := do
  if inodeNum = 0 then pure none
  else
    let s ← get
    let table ← extfsGetInodeTableBlock ((inodeNum - 1) / s.info.inodesPerGroup)
    if table = 0 then pure none
    else
      let (block, offset) := extfsInodePlace s.info inodeNum table
      let buffer ← extfsReadInodeBuf block
      pure (some fun i => buffer.byte (offset + i.val))

/-! ## The block map of a file -/

/-- One step through an indirect block: the entry `index` of the block `block`, 0 when there is
no such block. -/
def extfsIndirectAt (block index : Nat) : ExtM Nat := do
  if block = 0 then pure 0
  else
    let buffer ← extfsReadBlock block
    pure (buffer.u32 (index * 4))

def extfsGetBlockAt (inode : ExtInode) (blockIndex : Nat) : ExtM Nat := do
  let s ← get
  let n := s.info.blockSize / 4
  if blockIndex < 12 then pure (inode.block blockIndex)
  else
    let blockIndex := blockIndex - 12
    if blockIndex < n then extfsIndirectAt (inode.block 12) blockIndex
    else
      let blockIndex := blockIndex - n
      if blockIndex < n * n then
        let second ← extfsIndirectAt (inode.block 13) (blockIndex / n)
        extfsIndirectAt second (blockIndex % n)
      else
        let blockIndex := blockIndex - n * n
        let first ← extfsIndirectAt (inode.block 14) (blockIndex / (n * n))
        let second ← extfsIndirectAt first (blockIndex % (n * n) / n)
        extfsIndirectAt second (blockIndex % (n * n) % n)

/-- The number of blocks for `size` bytes, `(size + block_size - 1) / block_size`. -/
def extfsBlocksFor (info : ExtfsInfo) (size : Nat) : Nat :=
  w32 (size + info.blockSize - 1) / info.blockSize

def extfsTruncateFile (inode : ExtInode) (newSize : Nat) : ExtM ExtInode := do
  let s ← get
  if inode.size ≤ newSize then pure inode
  else
    let newBlocks := extfsBlocksFor s.info newSize
    let oldBlocks := extfsBlocksFor s.info inode.size
    (List.range' newBlocks (oldBlocks - newBlocks)).forM fun i => do
      let block ← extfsGetBlockAt inode i
      if block ≠ 0 then extfsFreeBlock block else pure ()
    pure ((inode.setSize newSize).touchMtime.touchCtime)

/-- The part of `extfs_alloc_file_block` that makes sure there is an indirect block. -/
def extfsEnsureIndirect (inode : ExtInode) : ExtM (Bool × ExtInode) := do
  if inode.block 12 = 0 then
    match ← extfsAllocBlock 0 with
    | none => pure (false, inode)
    | some newBlock =>
      extfsWriteBlock newBlock Block.zero
      pure (true, inode.setBlock 12 newBlock)
  else pure (true, inode)

/-- `extfs_alloc_file_block`: the block, if there is one, and the inode behind the call. -/
def extfsAllocFileBlock (inode : ExtInode) (blockIndex : Nat) : ExtM (Option Nat × ExtInode) := do
  let s ← get
  if blockIndex < 12 then
    if inode.block blockIndex ≠ 0 then pure (nonNegative (inode.block blockIndex), inode)
    else
      match ← extfsAllocBlock 0 with
      | none => pure (none, inode)
      | some newBlock => pure (some newBlock, inode.setBlock blockIndex newBlock)
  else
    let index := blockIndex - 12
    if index < s.info.blockSize / 4 then
      let (ok, inode) ← extfsEnsureIndirect inode
      if !ok then pure (none, inode)
      else
        let buffer ← extfsReadBlock (inode.block 12)
        if buffer.u32 (index * 4) ≠ 0 then pure (nonNegative (buffer.u32 (index * 4)), inode)
        else
          match ← extfsAllocBlock 0 with
          | none => pure (none, inode)
          | some newBlock =>
            -- `indirect` points into the buffer, which `extfs_alloc_block` has cleared
            let s ← get
            extfsWriteBlock (inode.block 12) (s.block.patch (index * 4) (le32 newBlock))
            pure (some newBlock, inode)
    else pure (none, inode)

/-- The loop of `extfs_free_file_blocks` over the direct blocks. -/
def extfsFreeDirect (blocks : Nat) : List Nat → ExtInode → ExtM ExtInode
  | [], inode => pure inode
  | i :: rest, inode => do
      if i < blocks ∧ inode.block i ≠ 0 then
        extfsFreeBlock (inode.block i)
        extfsFreeDirect blocks rest (inode.setBlock i 0)
      else extfsFreeDirect blocks rest inode

def extfsFreeFileBlocks (inode : ExtInode) : ExtM ExtInode := do
  let s ← get
  let blocks := extfsBlocksFor s.info inode.size
  let inode ← extfsFreeDirect blocks (List.range 12) inode
  if 12 < blocks ∧ inode.block 12 ≠ 0 then
    let _ ← extfsReadBlock (inode.block 12)
    (List.range (min (blocks - 12) (s.info.blockSize / 4))).forM fun i => do
      -- `indirect` points into the buffer, which `extfs_free_block` uses as well
      let s ← get
      if s.block.u32 (i * 4) ≠ 0 then extfsFreeBlock (s.block.u32 (i * 4)) else pure ()
    extfsFreeBlock (inode.block 12)
    pure (inode.setBlock 12 0)
  else pure inode

end Monios.Model
