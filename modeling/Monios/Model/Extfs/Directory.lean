import Monios.Model.Extfs.Blocks

/-!
# The ext2 driver: directories and paths

Looking a name up, following a path through directories and symbolic links, and adding and
removing directory entries.

The loops over a directory move on by the length field of an entry, which is at least one,
so that `size + 1` rounds are enough for them; a loop that needs more, since its offset has
wrapped around, has no result here.
-/

set_option autoImplicit false

namespace Monios.Model

open Monios.Library

/-! ## Entries -/

/-- `entry->inode`, `entry->rec_len`, `entry->name_len`, `entry->file_type` and `entry->name` of the
entry at byte `o` of a buffer. -/
def direntInode (buffer : ExtBlock) (o : Nat) : Nat := buffer.u32 o

def direntRecLen (buffer : ExtBlock) (o : Nat) : Nat := buffer.u16 (o + 4)

def direntNameLen (buffer : ExtBlock) (o : Nat) : Nat := (buffer.byte (o + 6)).toNat

def direntFileType (buffer : ExtBlock) (o : Nat) : Nat := (buffer.byte (o + 7)).toNat

def direntName (buffer : ExtBlock) (o : Nat) : List UInt8 :=
  buffer.bytes (o + 8) (direntNameLen buffer o)

def direntBytes (inodeNum recLen fileType : Nat) (name : List UInt8) : List UInt8 :=
  le32 inodeNum ++ le16 recLen ++ [UInt8.ofNat name.length, UInt8.ofNat fileType] ++ name

/-- The length of an entry with a name of `n` bytes, `(8 + n + 3) & ~3`. -/
def direntSize (n : Nat) : Nat := (8 + n + 3) / 4 * 4

/-- `EXT_DIR_FILE_TYPE`, `EXT_DIR_DIR_TYPE` and `EXT_DIR_SYMLINK_TYPE` -/
def extDirFileType : Nat := 1

def extDirDirType : Nat := 2

def extDirSymlinkType : Nat := 7

def extRootInode : Nat := 2

/-- The loop of `extfs_find_in_dir`. -/
def extfsFindFrom (inode : ExtInode) (name : List UInt8) : Nat → Nat → ExtM (Option (Nat × Nat))
  | 0, _ => fun _ => none
  | rounds + 1, offset => do
      let s ← get
      let bs := s.info.blockSize
      if offset < inode.size then
        let o := offset % bs
        let block ← extfsGetBlockAt inode (offset / bs)
        if block = 0 ∨ bs < o + 8 then pure none
        else
          let buffer ← extfsReadBlock block
          let recLen := direntRecLen buffer o
          if recLen < 8 ∨ recLen % 4 ≠ 0 ∨ bs < o + recLen ∨ recLen - 8 < direntNameLen buffer o then pure none
          else if direntName buffer o = name then
            pure (some (direntInode buffer o, direntFileType buffer o))
          else extfsFindFrom inode name rounds (w32 (offset + recLen))
      else pure none

/-- `extfs_find_in_dir`: the inode and the type in the entry. -/
def extfsFindInDir (dirInode : Nat) (name : List UInt8) : ExtM (Option (Nat × Nat)) := do
  match ← extfsReadInodeRaw dirInode with
  | none => pure none
  | some inode =>
    if !inode.isDirectory || name.length == 0 || decide (255 < name.length) then pure none
    else extfsFindFrom inode name (inode.size + 1) 0

/-! ## Paths -/

/-- The character `/`. -/
def slash : UInt8 := 0x2F

def extfsAppendPathPart (path : List UInt8) (pathSize : Nat) (part : List UInt8) :
    Option (List UInt8) :=
  if part.isEmpty then none
  else
    let joined :=
      if path.isEmpty || path.getLast? == some slash then path ++ part else path ++ slash :: part
    if joined.length < pathSize then some joined else none

/-- `extfs_parent_path_for_cursor`, where `before` is the part of the path in front of the cursor.
-/
def extfsParentPathForCursor (before : List UInt8) (outSize : Nat) : Option (List UInt8) :=
  let component := (before.reverse.dropWhile (· == slash)).dropWhile (· != slash)
  -- `component` is reversed and starts with the slash in front of the last component
  match component with
  | [] => some [slash]
  | _ :: parent =>
    if parent.isEmpty then some [slash]
    else if parent.length < outSize then some parent.reverse
    else none

/-- `extfs_read_symlink_target`, as a C string. -/
def extfsReadSymlinkTarget (inode : ExtInode) (targetSize : Nat) : ExtM (Option (List UInt8)) := do
  if inode.size = 0 ∨ targetSize ≤ inode.size then pure none
  else if inode.size ≤ 60 then pure (some ((inode.bytes 40 inode.size).takeWhile (· != 0)))
  else if inode.block 0 = 0 then pure none
  else
    let buffer ← extfsReadBlock (inode.block 0)
    pure (some ((buffer.bytes 0 inode.size).takeWhile (· != 0)))

/-- The path a symbolic link stands for: its target, behind the directory the link is in when it
is a relative one, and the rest of the path. -/
def extfsLinkPath (before rest target : List UInt8) : Option (List UInt8) := do
  let target ←
    if target.head? = some slash then some target
    else do
      let base ← extfsParentPathForCursor before 256
      extfsAppendPathPart base 256 target
  let full := if rest.isEmpty then target else target ++ slash :: rest
  if full.length < 512 then some full else none

/-- The loop of `extfs_resolve_path_internal`.  `link` is the recursive call for the path behind a
symbolic link, `none` when eight links have been followed. -/
def extfsResolveFrom (path : List UInt8) (followSymlinks : Bool)
    (link : Option (List UInt8 → ExtM (Option Nat))) : Nat → List UInt8 → Nat → ExtM (Option Nat)
  | 0, _, _ => fun _ => none
  | rounds + 1, cursor, currentInode => do
      let cursor := cursor.dropWhile (· == slash)
      if cursor.isEmpty then pure (some currentInode)
      else
        let component := (cursor.takeWhile (· != slash)).take 255
        let cursor := cursor.drop component.length
        if component = [0x2E] then extfsResolveFrom path followSymlinks link rounds cursor currentInode
        else if component = [0x2E, 0x2E] then
          if currentInode = extRootInode then
            extfsResolveFrom path followSymlinks link rounds cursor currentInode
          else
            match ← extfsFindInDir currentInode component with
            | none => pure none
            | some (parent, _) => extfsResolveFrom path followSymlinks link rounds cursor parent
        else
          match ← extfsFindInDir currentInode component with
          | none => pure none
          | some (next, fileType) =>
            if followSymlinks && fileType == extDirSymlinkType then
              match link with
              | none => pure none
              | some resolve =>
                match ← extfsReadInodeRaw next with
                | none => pure none
                | some inode =>
                  match ← extfsReadSymlinkTarget inode 256 with
                  | none => pure none
                  | some target =>
                    let before := path.take (path.length - cursor.length)
                    match extfsLinkPath before cursor target with
                    | none => pure none
                    | some full => resolve full
            else extfsResolveFrom path followSymlinks link rounds cursor next

/-- `extfs_resolve_path_internal`, with `links` symbolic links left to follow. -/
def extfsResolvePathInternal : Nat → List UInt8 → Bool → ExtM (Option Nat)
  | 0, path, followSymlinks => do
      let s ← get
      if !s.info.present then pure none
      else extfsResolveFrom path followSymlinks none (path.length + 1) path extRootInode
  | links + 1, path, followSymlinks => do
      let s ← get
      if !s.info.present then pure none
      else
        extfsResolveFrom path followSymlinks (some fun full => extfsResolvePathInternal links full true)
          (path.length + 1) path extRootInode

def extfsResolvePath (path : List UInt8) : ExtM (Option Nat) := extfsResolvePathInternal 8 path true

/-- The directory and the last component of a path, as `strrchr(path, '/')` splits it. -/
def extfsSplitPath (path : List UInt8) : Option (List UInt8 × List UInt8) :=
  let name := (path.reverse.takeWhile (· != slash)).reverse
  if name.length = path.length then none
  else
    let dir := path.take (path.length - name.length - 1)
    if 256 ≤ dir.length then none else some (if dir.isEmpty then [slash] else dir, name)

/-! ## Changing directories -/

/-- The search of `extfs_add_dir_entry` for an entry with `entrySize` bytes to spare: its block, the
buffer and the byte in it. -/
def extfsFindRoomFrom (inode : ExtInode) (entrySize : Nat) :
    Nat → Nat → ExtM (Option (Nat × ExtBlock × Nat))
  | 0, _ => fun _ => none
  | rounds + 1, offset => do
      let s ← get
      let bs := s.info.blockSize
      if offset < inode.size then
        let block ← extfsGetBlockAt inode (offset / bs)
        if block = 0 then pure none
        else
          let buffer ← extfsReadBlock block
          let recLen := direntRecLen buffer (offset % bs)
          if recLen = 0 then pure none
          else if direntSize (direntNameLen buffer (offset % bs)) + entrySize ≤ recLen then
            pure (some (block, buffer, offset % bs))
          else extfsFindRoomFrom inode entrySize rounds (w32 (offset + recLen))
      else pure none

/-- An entry of a directory block split in two, the second one with the given inode, type and name.
-/
def extfsSplitEntry (buffer : ExtBlock) (o inodeNum fileType : Nat) (name : List UInt8) :
    ExtBlock :=
  let actual := direntSize (direntNameLen buffer o)
  (buffer.patch (o + 4) (le16 actual)).patch (o + actual)
    (direntBytes inodeNum (direntRecLen buffer o - actual) fileType name)

def extfsAddDirEntry (dirInodeNum : Nat) (name : List UInt8) (inodeNum fileType : Nat) :
    ExtM Bool := do
  match ← extfsReadInodeRaw dirInodeNum with
  | none => pure false
  | some dirInode =>
    if !dirInode.isDirectory then pure false
    else
      match ← extfsFindRoomFrom dirInode (direntSize name.length) (dirInode.size + 1) 0 with
      | some (block, buffer, o) =>
        extfsWriteBlock block (extfsSplitEntry buffer o inodeNum fileType name)
        let _ ← extfsWriteInodeRaw dirInodeNum dirInode.touchMtime
        pure true
      | none =>
        let s ← get
        let newBlockIndex := dirInode.size / s.info.blockSize
        match ← extfsAllocFileBlock dirInode newBlockIndex with
        | (none, _) => pure false
        | (some newBlock, dirInode) =>
          let s ← get
          extfsWriteBlock newBlock (Block.zero.patch 0 (direntBytes inodeNum s.info.blockSize fileType name))
          let dirInode := dirInode.setSize (w32 ((newBlockIndex + 1) * s.info.blockSize))
          let _ ← extfsWriteInodeRaw dirInodeNum dirInode.touchMtime
          pure true

end Monios.Model
