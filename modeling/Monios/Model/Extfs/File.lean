import Monios.Model.Extfs.Directory

/-!
# The ext2 driver: operations on files and directories

`extfs_read_file`, `extfs_read_file_at`, `extfs_write_file`, `extfs_delete`, `extfs_mkdir`,
`extfs_rmdir` and `extfs_rename`.

A path is the list of its bytes without the closing zero.  A read returns the code of the source
together with the bytes it has put into the caller's buffer.
-/

set_option autoImplicit false

namespace Monios.Model

open Monios.Library

/-! ## Reading -/

def extfsOpen (path : List UInt8) : ExtM (Option ExtInode) := do
  match ← extfsResolvePath path with
  | none => pure none
  | some inodeNum => extfsReadInodeRaw inodeNum

def extfsFileSize (path : List UInt8) : ExtM Int := do
  match ← extfsOpen path with
  | none => pure (-1)
  | some inode => if inode.isDirectory then pure (-1) else pure (int32 inode.size)

/-- The loop of `extfs_read_file_at`; a round reads at least one of the `bytesLeft` bytes. -/
def extfsReadFrom (inode : ExtInode) : Nat → Nat → Nat → ExtM (List UInt8)
  | 0, _, _ => pure []
  | rounds + 1, offset, bytesLeft => do
      if bytesLeft = 0 then pure []
      else
        let s ← get
        let o := offset % s.info.blockSize
        let chunk := min (s.info.blockSize - o) bytesLeft
        let block ← extfsGetBlockAt inode (offset / s.info.blockSize)
        let bytes ←
          if block = 0 then pure (List.replicate chunk 0)
          else do
            let buffer ← extfsReadBlock block
            pure (buffer.bytes o chunk)
        let rest ← extfsReadFrom inode rounds (w32 (offset + chunk)) (bytesLeft - chunk)
        pure (bytes ++ rest)

def extfsReadFileAt (path : List UInt8) (offset bufferSize : Nat) : ExtM (Int × List UInt8) := do
  match ← extfsOpen path with
  | none => pure (-1, [])
  | some inode =>
    if inode.isDirectory then pure (-1, [])
    else if inode.size ≤ offset ∨ bufferSize = 0 then pure (0, [])
    else
      let bytesLeft := min (inode.size - offset) bufferSize
      let bytes ← extfsReadFrom inode bytesLeft offset bytesLeft
      pure (int32 bytesLeft, bytes)

def extfsReadFile (path : List UInt8) (bufferSize : Nat) : ExtM (Int × List UInt8) := do
  let size ← extfsFileSize path
  if size < 0 then pure (-1, [])
  else if bufferSize < size.toNat then pure (-2, [])
  else extfsReadFileAt path 0 bufferSize

/-! ## Writing -/

/-- The loop of `extfs_write_inode_data`: whether all bytes were written, and the inode. -/
def extfsWriteFrom : Nat → ExtInode → Nat → List UInt8 → ExtM (Bool × ExtInode)
  | 0, inode, _, _ => pure (true, inode)
  | rounds + 1, inode, offset, data => do
      if data.isEmpty then pure (true, inode)
      else
        let s ← get
        let bs := s.info.blockSize
        let o := offset % bs
        let chunk := min (bs - o) data.length
        match ← extfsAllocFileBlock inode (offset / bs) with
        | (none, inode) => pure (false, inode)
        | (some block, inode) =>
          let _ ← if o ≠ 0 ∨ chunk ≠ bs then extfsReadBlock block else pure Block.zero
          let s ← get
          extfsWriteBlock block (s.block.patch o (data.take chunk))
          let offset := w32 (offset + chunk)
          let inode := if inode.size < offset then inode.setSize offset else inode
          extfsWriteFrom rounds inode offset (data.drop chunk)

def extfsWriteInodeData (inode : ExtInode) (offset : Nat) (data : List UInt8) :
    ExtM (Int × ExtInode) := do
  match ← extfsWriteFrom data.length inode offset data with
  | (true, inode) => pure (int32 data.length, inode.touchMtime.touchCtime)
  | (false, inode) => pure (-1, inode)

/-- `EXT_INODE_MODE_REG | 0644` and `EXT_INODE_MODE_DIR | 0755` -/
def extModeFile : Nat := 0x81A4

def extModeDir : Nat := 0x41ED

/-- The part of `extfs_write_file` that opens the file or creates it: the number of the inode, the
inode, and whether it is new. -/
def extfsOpenForWrite (path : List UInt8) : ExtM (Option (Nat × ExtInode × Bool)) := do
  match ← extfsResolvePath path with
  | none =>
    match extfsSplitPath path with
    | none => pure none
    | some (dirPath, filename) =>
      match ← extfsResolvePath dirPath with
      | none => pure none
      | some dirInode =>
        match ← extfsAllocInode 0 with
        | none => pure none
        | some inodeNum =>
          if ← extfsAddDirEntry dirInode filename inodeNum extDirFileType then
            pure (some (inodeNum, ExtInode.fresh extModeFile 1, true))
          else
            extfsFreeInode inodeNum
            pure none
  | some inodeNum =>
    match ← extfsReadInodeRaw inodeNum with
    | none => pure none
    | some inode =>
      if inode.isDirectory then pure none
      else
        let inode ← extfsTruncateFile inode 0
        pure (some (inodeNum, inode, false))

def extfsWriteFile (path data : List UInt8) : ExtM Int := do
  match ← extfsOpenForWrite path with
  | none => pure (-1)
  | some (inodeNum, inode, isNew) =>
    let (result, inode) ← extfsWriteInodeData inode 0 data
    if result < 0 then
      if isNew then
        let _ ← extfsFreeFileBlocks inode
        extfsFreeInode inodeNum
      else pure ()
      pure (-1)
    else
      let _ ← extfsWriteInodeRaw inodeNum inode
      pure result

def extfsDotEntries (blockSize inodeNum parent : Nat) : ExtBlock :=
  (Block.zero.patch 0 (direntBytes inodeNum 12 extDirDirType [0x2E])).patch 12
    (direntBytes parent (blockSize - 12) extDirDirType [0x2E, 0x2E])

end Monios.Model
