import Monios.Analysis.ExtCache
import Monios.Model.Vfs

/-!
# Reading an ext2 volume

What the read operations of the ext2 driver return, as functions of the volume alone: inodes, block
maps, directories, paths and file contents. The functions of this module are partial.
-/

set_option autoImplicit false

namespace Monios.Analysis

open Monios.Library Monios.Model

namespace ExtVolume

variable (V : ExtVolume)

def block (b : Nat) : Option ExtBlock := if b < V.info.blocksCount then some (V.view b) else none

def groupDesc (group : Nat) : Option (Option (Block 32)) := do
  let buffer ← V.block (extfsGetGroupDescBlock V.info)
  if V.info.blockSize < w32 (w32 (group * 32) + 32) then pure none
  else pure (some fun i => buffer.byte (w32 (group * 32) + i.val))

def groupField (field : Block 32 → Nat) (group : Nat) : Option Nat := do
  match ← V.groupDesc group with
  | some desc => pure (field desc)
  | none => pure 0

def inode (n : Nat) : Option (Option ExtInode) := do
  if n = 0 then pure none
  else
    let table ← V.groupField (fun desc => desc.u32 8) ((n - 1) / V.info.inodesPerGroup)
    if table = 0 then pure none
    else
      let buffer ← V.block (extfsInodePlace V.info n table).1
      pure (some fun i => buffer.byte ((extfsInodePlace V.info n table).2 + i.val))

def indirectAt (block index : Nat) : Option Nat := do
  if block = 0 then pure 0
  else
    let buffer ← V.block block
    pure (buffer.u32 (index * 4))

def blockAt (inode : ExtInode) (blockIndex : Nat) : Option Nat := do
  let n := V.info.blockSize / 4
  if blockIndex < 12 then pure (inode.block blockIndex)
  else
    let blockIndex := blockIndex - 12
    if blockIndex < n then V.indirectAt (inode.block 12) blockIndex
    else
      let blockIndex := blockIndex - n
      if blockIndex < n * n then
        let second ← V.indirectAt (inode.block 13) (blockIndex / n)
        V.indirectAt second (blockIndex % n)
      else
        let blockIndex := blockIndex - n * n
        let first ← V.indirectAt (inode.block 14) (blockIndex / (n * n))
        let second ← V.indirectAt first (blockIndex % (n * n) / n)
        V.indirectAt second (blockIndex % (n * n) % n)

def findFrom (inode : ExtInode) (name : List UInt8) : Nat → Nat → Option (Option (Nat × Nat))
  | 0, _ => none
  | rounds + 1, offset => do
      let bs := V.info.blockSize
      if offset < inode.size then
        let o := offset % bs
        let block ← V.blockAt inode (offset / bs)
        if block = 0 ∨ bs < o + 8 then pure none
        else
          let buffer ← V.block block
          let recLen := direntRecLen buffer o
          if recLen < 8 ∨ recLen % 4 ≠ 0 ∨ bs < o + recLen ∨ recLen - 8 < direntNameLen buffer o then pure none
          else if direntName buffer o = name then
            pure (some (direntInode buffer o, direntFileType buffer o))
          else findFrom inode name rounds (w32 (offset + recLen))
      else pure none

def find (dirInode : Nat) (name : List UInt8) : Option (Option (Nat × Nat)) := do
  match ← V.inode dirInode with
  | none => pure none
  | some inode =>
    if !inode.isDirectory || name.length == 0 || decide (255 < name.length) then pure none
    else V.findFrom inode name (inode.size + 1) 0

def symlinkTarget (inode : ExtInode) (targetSize : Nat) : Option (Option (List UInt8)) := do
  if inode.size = 0 ∨ targetSize ≤ inode.size then pure none
  else if inode.size ≤ 60 then pure (some ((inode.bytes 40 inode.size).takeWhile (· != 0)))
  else if inode.block 0 = 0 then pure none
  else
    let buffer ← V.block (inode.block 0)
    pure (some ((buffer.bytes 0 inode.size).takeWhile (· != 0)))

def resolveFrom (path : List UInt8) (followSymlinks : Bool)
    (link : Option (List UInt8 → Option (Option Nat))) :
    Nat → List UInt8 → Nat → Option (Option Nat)
  | 0, _, _ => none
  | rounds + 1, cursor, currentInode => do
      let cursor := cursor.dropWhile (· == slash)
      if cursor.isEmpty then pure (some currentInode)
      else
        let component := (cursor.takeWhile (· != slash)).take 255
        let cursor := cursor.drop component.length
        if component = [0x2E] then resolveFrom path followSymlinks link rounds cursor currentInode
        else if component = [0x2E, 0x2E] then
          if currentInode = extRootInode then
            resolveFrom path followSymlinks link rounds cursor currentInode
          else
            match ← V.find currentInode component with
            | none => pure none
            | some (parent, _) => resolveFrom path followSymlinks link rounds cursor parent
        else
          match ← V.find currentInode component with
          | none => pure none
          | some (next, fileType) =>
            if followSymlinks && fileType == extDirSymlinkType then
              match link with
              | none => pure none
              | some resolve =>
                match ← V.inode next with
                | none => pure none
                | some inode =>
                  match ← V.symlinkTarget inode 256 with
                  | none => pure none
                  | some target =>
                    let before := path.take (path.length - cursor.length)
                    match extfsLinkPath before cursor target with
                    | none => pure none
                    | some full => resolve full
            else resolveFrom path followSymlinks link rounds cursor next

def resolveInternal : Nat → List UInt8 → Bool → Option (Option Nat)
  | 0, path, followSymlinks => do
      if !V.info.present then pure none
      else V.resolveFrom path followSymlinks none (path.length + 1) path extRootInode
  | links + 1, path, followSymlinks => do
      if !V.info.present then pure none
      else
        V.resolveFrom path followSymlinks (some fun full => resolveInternal links full true)
          (path.length + 1) path extRootInode

def resolve (path : List UInt8) : Option (Option Nat) := V.resolveInternal 8 path true

def openFile (path : List UInt8) : Option (Option ExtInode) := do
  match ← V.resolve path with
  | none => pure none
  | some inodeNum => V.inode inodeNum

def fileSize (path : List UInt8) : Option Int := do
  match ← V.openFile path with
  | none => pure (-1)
  | some inode => if inode.isDirectory then pure (-1) else pure (int32 inode.size)

def readFrom (inode : ExtInode) : Nat → Nat → Nat → Option (List UInt8)
  | 0, _, _ => pure []
  | rounds + 1, offset, bytesLeft => do
      if bytesLeft = 0 then pure []
      else
        let o := offset % V.info.blockSize
        let chunk := min (V.info.blockSize - o) bytesLeft
        let block ← V.blockAt inode (offset / V.info.blockSize)
        let bytes ←
          if block = 0 then pure (List.replicate chunk 0)
          else do
            let buffer ← V.block block
            pure (buffer.bytes o chunk)
        let rest ← readFrom inode rounds (w32 (offset + chunk)) (bytesLeft - chunk)
        pure (bytes ++ rest)

def readFileAt (path : List UInt8) (offset bufferSize : Nat) : Option (Int × List UInt8) := do
  match ← V.openFile path with
  | none => pure (-1, [])
  | some inode =>
    if inode.isDirectory then pure (-1, [])
    else if inode.size ≤ offset ∨ bufferSize = 0 then pure (0, [])
    else
      let bytesLeft := min (inode.size - offset) bufferSize
      let bytes ← V.readFrom inode bytesLeft offset bytesLeft
      pure (int32 bytesLeft, bytes)

def readFile (path : List UInt8) (bufferSize : Nat) : Option (Int × List UInt8) := do
  let size ← V.fileSize path
  if size < 0 then pure (-1, [])
  else if bufferSize < size.toNat then pure (-2, [])
  else V.readFileAt path 0 bufferSize

def read : ReadOp → Option (Int × List UInt8)
  | .readFile path bufferSize => V.readFile path bufferSize
  | .readFileAt path offset bufferSize => V.readFileAt path offset bufferSize

end ExtVolume

section

variable {V : ExtVolume} {s : Extfs} (hfit : ExtFits (2 ^ 32) V.info)

include hfit

theorem block_yields (h : Shows V s) (b : Nat) :
    YieldsAt (Shows V) (extfsReadBlock b) s (V.block b) := by
  unfold ExtVolume.block
  split
  · next hb => exact (readBlock_yields h hfit le_rfl hb).mono fun t ht => ht.1
  · exact .none

theorem groupField_yields (h : Shows V s) (field : Block 32 → Nat) (group : Nat) :
    YieldsAt (Shows V) (extfsGroupField field group) s (V.groupField field group) := by
  have hdesc : YieldsAt (Shows V) (extfsReadGroupDesc group) s (V.groupDesc group) := by
    unfold extfsReadGroupDesc ExtVolume.groupDesc
    refine .get_bind ?_
    simp only [extfsGetGroupDescBlock, h.blockSize]
    exact .bind (block_yields hfit h _) fun buffer s' _ h' => .ite (fun _ => .pure h') fun _ =>
      .pure h'
  unfold extfsGroupField ExtVolume.groupField
  refine .bind hdesc fun desc s' _ h' => ?_
  cases desc with
  | none => exact .pure h'
  | some desc => exact .pure h'

omit hfit in
theorem Shows.inodePlace (h : Shows V s) (n table : Nat) :
    extfsInodePlace s.info n table = extfsInodePlace V.info n table := by
  have hipg : s.info.inodesPerGroup = V.info.inodesPerGroup :=
    (congrArg ExtfsInfo.inodesPerGroup h.info :)
  have hsize : s.info.inodeSize = V.info.inodeSize := (congrArg ExtfsInfo.inodeSize h.info :)
  simp only [extfsInodePlace, hipg, hsize, h.blockSize]

theorem readInodeRaw_yields (h : Shows V s) (n : Nat) :
    YieldsAt (Shows V) (extfsReadInodeRaw n) s (V.inode n) := by
  unfold extfsReadInodeRaw ExtVolume.inode
  refine .ite (fun _ => .pure h) fun _ => .get_bind ?_
  have hipg : s.info.inodesPerGroup = V.info.inodesPerGroup :=
    (congrArg ExtfsInfo.inodesPerGroup h.info :)
  simp only [h.inodePlace, hipg]
  refine .bind (groupField_yields hfit h _ _) fun table s' _ h' => .ite
    (fun _ => .pure h') fun _ => ?_
  refine .bind (I := Shows V) ?_ fun buffer s'' _ h'' => .pure h''
  unfold ExtVolume.block
  split
  · next hb => exact readInodeBuf_yields h' hfit le_rfl hb
  · exact .none

theorem indirectAt_yields (h : Shows V s) (block index : Nat) :
    YieldsAt (Shows V) (extfsIndirectAt block index) s (V.indirectAt block index) := by
  unfold extfsIndirectAt ExtVolume.indirectAt
  exact .ite (fun _ => .pure h) fun _ => .bind (block_yields hfit h _) fun buffer s' _ h' =>
    .pure h'

theorem getBlockAt_yields (h : Shows V s) (inode : ExtInode) (blockIndex : Nat) :
    YieldsAt (Shows V) (extfsGetBlockAt inode blockIndex) s (V.blockAt inode blockIndex) := by
  unfold extfsGetBlockAt ExtVolume.blockAt
  refine .get_bind ?_
  simp only [h.blockSize]
  refine .ite (fun _ => .pure h) fun _ => .ite (fun _ => indirectAt_yields hfit h _ _) fun _ =>
    .ite (fun _ => ?_) fun _ => ?_
  · exact .bind (indirectAt_yields hfit h _ _) fun second s' _ h' => indirectAt_yields hfit h' _ _
  · exact .bind (indirectAt_yields hfit h _ _) fun first s' _ h' =>
      .bind (indirectAt_yields hfit h' _ _) fun second s'' _ h'' => indirectAt_yields hfit h'' _ _

theorem findFrom_yields (inode : ExtInode) (name : List UInt8) (rounds offset : Nat)
    (h : Shows V s) :
    YieldsAt (Shows V) (extfsFindFrom inode name rounds offset) s
      (V.findFrom inode name rounds offset) := by
  induction rounds generalizing offset s with
  | zero => exact .none
  | succ rounds ih =>
    unfold extfsFindFrom ExtVolume.findFrom
    refine .get_bind ?_
    simp only [h.blockSize]
    refine .ite (fun _ => ?_) fun _ => .pure h
    refine .bind (getBlockAt_yields hfit h _ _) fun block s' _ h' => .ite
      (fun _ => .pure h') fun _ => ?_
    refine .bind (block_yields hfit h' _) fun buffer s'' _ h'' => .ite
      (fun _ => .pure h'') fun _ => ?_
    exact .ite (fun _ => .pure h'') fun _ => ih _ h''

theorem findInDir_yields (h : Shows V s) (dirInode : Nat) (name : List UInt8) :
    YieldsAt (Shows V) (extfsFindInDir dirInode name) s (V.find dirInode name) := by
  unfold extfsFindInDir ExtVolume.find
  refine .bind (readInodeRaw_yields hfit h _) fun inode s' _ h' => ?_
  cases inode with
  | none => exact .pure h'
  | some inode => exact .ite (fun _ => .pure h') fun _ => findFrom_yields hfit _ _ _ _ h'

theorem readSymlinkTarget_yields (h : Shows V s) (inode : ExtInode) (targetSize : Nat) :
    YieldsAt (Shows V) (extfsReadSymlinkTarget inode targetSize) s
      (V.symlinkTarget inode targetSize) := by
  unfold extfsReadSymlinkTarget ExtVolume.symlinkTarget
  refine .ite (fun _ => .pure h) fun _ => .ite (fun _ => .pure h) fun _ => .ite
    (fun _ => .pure h) fun _ => ?_
  exact .bind (block_yields hfit h _) fun buffer s' _ h' => .pure h'

theorem resolveFrom_yields (path : List UInt8) (followSymlinks : Bool)
    {link : Option (List UInt8 → ExtM (Option Nat))}
    {spec : Option (List UInt8 → Option (Option Nat))} (hlink : match link, spec with
      | none, none => True
      | some f, some g => ∀ full s, Shows V s → YieldsAt (Shows V) (f full) s (g full)
      | _, _ => False) (rounds : Nat) (cursor : List UInt8) (currentInode : Nat) (h : Shows V s) :
    YieldsAt (Shows V) (extfsResolveFrom path followSymlinks link rounds cursor currentInode) s
      (V.resolveFrom path followSymlinks spec rounds cursor currentInode) := by
  induction rounds generalizing cursor currentInode s with
  | zero => exact .none
  | succ rounds ih =>
    unfold extfsResolveFrom ExtVolume.resolveFrom
    refine .ite (fun _ => .pure h) fun _ => .ite (fun _ => ih _ _ h) fun _ => .ite
      (fun _ => ?_) fun _ => ?_
    · refine .ite (fun _ => ih _ _ h) fun _ => .bind (findInDir_yields hfit h _ _) fun r s' _ h' =>
        ?_
      cases r with
      | none => exact .pure h'
      | some p => exact ih _ _ h'
    · refine .bind (findInDir_yields hfit h _ _) fun r s' _ h' => ?_
      cases r with
      | none => exact .pure h'
      | some p =>
        refine .ite (fun _ => ?_) fun _ => ih _ _ h'
        cases link with
        | none =>
          cases spec with
          | none => exact .pure h'
          | some g => exact hlink.elim
        | some f =>
          cases spec with
          | none => exact hlink.elim
          | some g =>
            refine .bind (readInodeRaw_yields hfit h' _) fun inode s'' _ h'' => ?_
            cases inode with
            | none => exact .pure h''
            | some inode =>
              refine .bind (readSymlinkTarget_yields hfit h'' _ _) fun target s₃ _ h₃ => ?_
              cases target with
              | none => exact .pure h₃
              | some target =>
                dsimp only
                generalize extfsLinkPath _ _ target = full
                cases full with
                | none => exact .pure h₃
                | some full => exact hlink full _ h₃

theorem resolvePathInternal_yields (links : Nat) (path : List UInt8) (followSymlinks : Bool)
    (h : Shows V s) :
    YieldsAt (Shows V) (extfsResolvePathInternal links path followSymlinks) s
      (V.resolveInternal links path followSymlinks) := by
  have hpresent : ∀ {s}, Shows V s → s.info.present = V.info.present := fun h =>
    (congrArg ExtfsInfo.present h.info :)
  induction links generalizing path followSymlinks s with
  | zero =>
    unfold extfsResolvePathInternal ExtVolume.resolveInternal
    refine .get_bind ?_
    simp only [hpresent h]
    exact .ite (fun _ => .pure h) fun _ => resolveFrom_yields hfit _ _ trivial _ _ _ h
  | succ links ih =>
    unfold extfsResolvePathInternal ExtVolume.resolveInternal
    refine .get_bind ?_
    simp only [hpresent h]
    exact .ite (fun _ => .pure h) fun _ =>
      resolveFrom_yields hfit _ _ (fun full s hs => ih full true hs) _ _ _ h

theorem resolvePath_yields (h : Shows V s) (path : List UInt8) :
    YieldsAt (Shows V) (extfsResolvePath path) s (V.resolve path) :=
  resolvePathInternal_yields hfit 8 path true h

theorem open_yields (h : Shows V s) (path : List UInt8) :
    YieldsAt (Shows V) (extfsOpen path) s (V.openFile path) := by
  unfold extfsOpen ExtVolume.openFile
  refine .bind (resolvePath_yields hfit h path) fun r s' _ h' => ?_
  cases r with
  | none => exact .pure h'
  | some n => exact readInodeRaw_yields hfit h' n

theorem fileSize_yields (h : Shows V s) (path : List UInt8) :
    YieldsAt (Shows V) (extfsFileSize path) s (V.fileSize path) := by
  unfold extfsFileSize ExtVolume.fileSize
  refine .bind (open_yields hfit h path) fun r s' _ h' => ?_
  cases r with
  | none => exact .pure h'
  | some inode => exact .ite (fun _ => .pure h') fun _ => .pure h'

theorem readFrom_yields (inode : ExtInode) (rounds offset bytesLeft : Nat) (h : Shows V s) :
    YieldsAt (Shows V) (extfsReadFrom inode rounds offset bytesLeft) s
      (V.readFrom inode rounds offset bytesLeft) := by
  induction rounds generalizing offset bytesLeft s with
  | zero => exact .pure h
  | succ rounds ih =>
    unfold extfsReadFrom ExtVolume.readFrom
    refine .ite (fun _ => .pure h) fun _ => .get_bind ?_
    simp only [h.blockSize]
    refine .bind (getBlockAt_yields hfit h _ _) fun block s' _ h' => .ite (fun _ => ?_) fun _ => ?_
    · exact .bind (.pure h') fun bytes s'' _ h'' => .bind (ih _ _ h'') fun rest s₃ _ h₃ => .pure h₃
    · refine .bind (block_yields hfit h' _) fun buffer s'' _ h'' => .bind
        (.pure h'') fun bytes s₃ _ h₃ => ?_
      exact .bind (ih _ _ h₃) fun rest s₄ _ h₄ => .pure h₄

theorem readFileAt_yields (h : Shows V s) (path : List UInt8) (offset bufferSize : Nat) :
    YieldsAt (Shows V) (extfsReadFileAt path offset bufferSize) s
      (V.readFileAt path offset bufferSize) := by
  unfold extfsReadFileAt ExtVolume.readFileAt
  refine .bind (open_yields hfit h path) fun r s' _ h' => ?_
  cases r with
  | none => exact .pure h'
  | some inode =>
    refine .ite (fun _ => .pure h') fun _ => .ite (fun _ => .pure h') fun _ => ?_
    exact .bind (readFrom_yields hfit _ _ _ _ h') fun bytes s'' _ h'' => .pure h''

theorem extfsRead_yields (h : Shows V s) (op : ReadOp) :
    YieldsAt (Shows V) (extfsRead op) s (V.read op) := by
  cases op with
  | readFileAt path offset bufferSize => exact readFileAt_yields hfit h path offset bufferSize
  | readFile path bufferSize =>
    unfold extfsRead ExtVolume.read extfsReadFile ExtVolume.readFile
    refine .bind (fileSize_yields hfit h path) fun size s' _ h' => ?_
    exact .ite (fun _ => .pure h') fun _ => .ite (fun _ => .pure h') fun _ =>
      readFileAt_yields hfit h' _ _ _

end

end Monios.Analysis
