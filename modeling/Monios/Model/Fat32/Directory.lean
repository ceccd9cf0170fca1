import Monios.Model.Fat32.Table

/-!
# The FAT32 driver: names, directories and paths

Short and long names, the directory cursor, the search for an entry and for free
slots, and the resolution of paths.  A C string is the list of its bytes up to the
terminating zero.
-/

set_option autoImplicit false

namespace Monios.Model

open Monios.Library

/-! ## Directory entries -/

/-- The 32 bytes of an entry, `off` bytes into a sector. -/
def dirEntryAt (sector : Sector) (off : Nat) : Fat32DirEntry := fun i => sector.byte (off + i.val)

namespace Fat32DirEntry

/-- `name`, the eleven bytes of the short name -/
def name (e : Fat32DirEntry) : List UInt8 := e.bytes 0 11

def name0 (e : Fat32DirEntry) : UInt8 := e.byte 0

def attr (e : Fat32DirEntry) : UInt8 := e.byte 11

def fileSize (e : Fat32DirEntry) : Nat := e.u32 28

def cluster (e : Fat32DirEntry) : Nat := e.u16 20 * 65536 + e.u16 26

/-- `(attr & FAT32_ATTR_DIRECTORY) != 0` -/
def isDirectory (e : Fat32DirEntry) : Bool := e.attr &&& 0x10 != 0

/-- `(attr & FAT32_ATTR_VOLUME_ID) != 0` -/
def isVolumeId (e : Fat32DirEntry) : Bool := e.attr &&& 0x08 != 0

/-- `attr == FAT32_ATTR_LFN` -/
def isLfn (e : Fat32DirEntry) : Bool := e.attr == 0x0F

/-- The test for `.` and `..`: a dot, and a blank or a dot behind it. -/
def isDot (e : Fat32DirEntry) : Bool :=
  e.byte 0 == 0x2E && (e.byte 1 == 0x20 || e.byte 1 == 0x2E)

/-- `fat32_set_entry_cluster` -/
def setCluster (e : Fat32DirEntry) (cluster : Nat) : Fat32DirEntry :=
  (e.patch 26 (le16 cluster)).patch 20 (le16 (cluster / 65536))

/-- An assignment to `attr`. -/
def setAttr (e : Fat32DirEntry) (attr : UInt8) : Fat32DirEntry := e.patch 11 [attr]

/-- An assignment to `file_size`. -/
def setFileSize (e : Fat32DirEntry) (size : Nat) : Fat32DirEntry := e.patch 28 (le32 size)

/-- A copy into `name`. -/
def setName (e : Fat32DirEntry) (name : List UInt8) : Fat32DirEntry := e.patch 0 name

end Fat32DirEntry

/-! ## Names -/

def cString (buffer : List UInt8) : List UInt8 := buffer.takeWhile (· != 0)

/-- `ch - 'a' + 'A'` for a small letter -/
def upperChar (ch : UInt8) : UInt8 := if 0x61 ≤ ch && ch ≤ 0x7A then ch - 0x20 else ch

/-- `strcasecmp(a, b) == 0` (`lib/string.c`) -/
def strcasecmpBytesEq (a b : List UInt8) : Bool :=
  let lower : UInt8 → UInt8 := fun ch => if 0x41 ≤ ch && ch ≤ 0x5A then ch + 0x20 else ch
  a.map lower == b.map lower

/-- The loop of `fat32_format_component`.  The flag `ext` of the source only guards an
assignment of 8 to a `j` that is 8. -/
def fat32FormatFrom : List UInt8 → Nat → Block 11 → Block 11
  | [], _, out => out
  | ch :: rest, j, out =>
    if ch = 0x2E then fat32FormatFrom rest 8 out
    else if 11 ≤ j then out
    else fat32FormatFrom rest (j + 1) (out.patch j [upperChar ch])

def fat32FormatComponent (name : List UInt8) : List UInt8 :=
  (fat32FormatFrom name 0 (Block.ofBytes (List.replicate 11 0x20))).bytes 0 11

def fat32DecodeName (name : List UInt8) : List UInt8 :=
  let base := (name.take 8).takeWhile (· != 0x20)
  let ext := (name.drop 8).take 3
  cString (if ext.any (· != 0x20) then base ++ 0x2E :: ext.takeWhile (· != 0x20) else base)

def fat32LfnChecksum (shortName : List UInt8) : UInt8 :=
  shortName.foldl (fun (sum ch : UInt8) => (if sum &&& 1 != 0 then (0x80 : UInt8) else 0) + (sum >>> 1) + ch) 0

def lfnCharOff : List Nat := [1, 3, 5, 7, 9, 14, 16, 18, 20, 22, 24, 28, 30]

/-- The thirteen characters of a long-name entry, `fat32_lfn_get_char`. -/
def fat32LfnChars (e : Fat32DirEntry) : List Nat := lfnCharOff.map e.u16

/-- The long name that `fat32_cursor_build_name` puts together from the buffered long-name
entries: the blocks 1, 2, ... in order, each from the first entry with its ordinal, up to
the first zero and at most 255 characters. -/
def fat32LongName (lfn : List Fat32DirEntry) : List UInt8 :=
  let blocks := (List.range lfn.length).map fun block =>
    lfn.find? fun e => (e.name0 &&& 0x1F).toNat == block + 1
  let chars := (blocks.flatMap fun e => (e.map fat32LfnChars).getD []).takeWhile (· != 0)
  (chars.take 255).map fun ch => if ch < 0x80 then UInt8.ofNat ch else 0x3F

def fat32NameNeedsLfn (name : List UInt8) : Bool :=
  fat32DecodeName (fat32FormatComponent name) != name

/-- The decimal digits of a number below `10 ^ n`. -/
def decimalDigits : Nat → Nat → List UInt8
  | 0, _ => []
  | n + 1, num =>
    if num = 0 then [] else decimalDigits n (num / 10) ++ [UInt8.ofNat (0x30 + num % 10)]

def fat32LfnMakeShort (longName : List UInt8) (num : Nat) : List UInt8 :=
  let hasDot := longName.contains 0x2E
  -- the part before and the part behind the last dot
  let stem := if hasDot then
      longName.take (longName.length - 1 - longName.reverse.findIdx (· == 0x2E)) else longName
  let tail := if hasDot then longName.drop (stem.length + 1) else []
  let base := ((stem.filter fun c => c != 0x20 && c != 0x2E && c != 0x2F).map upperChar).take 63
  let ext := ((tail.filter fun c => c != 0x20 && c != 0x2E).map upperChar).take 3
  let front := base.take 6 ++ [0x7E]
  let digits := if num = 0 then [0x30] else decimalDigits 8 num
  let front := front ++ digits.take (8 - front.length)
  ((Block.ofBytes (List.replicate 11 0x20) : Block 11).patch 0 front |>.patch 8 ext).bytes 0 11

/-! ## The directory cursor -/

structure LfnSlot where
  entry : Fat32DirEntry
  lba : Nat
  off : Nat

/-- `fat32_dir_item_t` -/
structure Fat32DirItem where
  longName : List UInt8
  entry : Fat32DirEntry
  sectorLba : Nat
  byteOffset : Nat
  lfn : List LfnSlot

/-- `fat32_dir_cursor_t`; `sector` is the loaded sector, if one is. -/
structure Fat32DirCursor where
  dir : Fat32DirRef
  sectorIndex : Nat
  sector : Option Sector
  sectorCluster : Nat
  entryI : Nat
  done : Bool
  lfn : List LfnSlot

def fat32CursorInit (dir : Fat32DirRef) : Fat32DirCursor := ⟨dir, 0, none, 0, 0, false, []⟩

def fat32CursorBuildName (lfn : List LfnSlot) (entry : Fat32DirEntry) : List UInt8 :=
  if lfn.isEmpty then fat32DecodeName entry.name else fat32LongName (lfn.map (·.entry))

def fat32CursorLba (s : Fat32) (c : Fat32DirCursor) : Nat :=
  w32 (fat32ClusterToLba s c.sectorCluster + c.sectorIndex % s.bpb.sectorsPerCluster)

inductive CursorEntry
  | stop
  | skip (lfn : List LfnSlot)
  | found (item : Fat32DirItem)

/-- The body of the inner loop of `fat32_cursor_next`. -/
def fat32CursorEntry (s : Fat32) (c : Fat32DirCursor) (sector : Sector) : CursorEntry :=
  let off := 32 * c.entryI
  let e := dirEntryAt sector off
  let lba := fat32CursorLba s c
  if e.name0 = 0x00 then .stop
  else if e.name0 = 0xE5 then .skip []
  else if e.isLfn then
    .skip (if c.lfn.length < 20 then c.lfn ++ [⟨e, lba, off⟩] else c.lfn)
  else if e.isVolumeId then .skip []
  else .found ⟨fat32CursorBuildName c.lfn e, e, lba, off, c.lfn⟩

/-- `fat32_cursor_next`: one round loads a sector or looks at one entry. -/
def fat32CursorNext : Nat → Fat32DirCursor → Fat32M (Option Fat32DirItem × Fat32DirCursor)
  | 0, _ => outOfFuel
  | fuel + 1, c => do
      if c.done then pure (none, c)
      else
        match c.sector with
        | none =>
          match ← fat32ReadDirSector c.dir c.sectorIndex with
          | none => pure (none, { c with done := true })
          | some (sector, cluster) =>
            fat32CursorNext fuel { c with sector := some sector, sectorCluster := cluster, entryI := 0 }
        | some sector =>
          if c.entryI < 16 then
            let s ← get
            match fat32CursorEntry s c sector with
            | .stop => pure (none, { c with done := true })
            | .skip lfn => fat32CursorNext fuel { c with entryI := c.entryI + 1, lfn := lfn }
            | .found item => pure (some item, { c with entryI := c.entryI + 1, lfn := [] })
          else fat32CursorNext fuel { c with sector := none, sectorIndex := w32 (c.sectorIndex + 1) }

/-- The loop of `fat32_find_item_in_dir`. -/
def fat32FindItemFrom (fuel : Nat) (name : List UInt8) :
    Nat → Fat32DirCursor → Fat32M (Option Fat32DirItem)
  | 0, _ => outOfFuel
  | n + 1, c => do
      match ← fat32CursorNext fuel c with
      | (none, _) => pure none
      | (some item, c) =>
        if item.entry.isDot then fat32FindItemFrom fuel name n c
        else if strcasecmpBytesEq item.longName name || item.entry.name == fat32FormatComponent name then
          pure (some item)
        else fat32FindItemFrom fuel name n c

def fat32FindItemInDir (fuel : Nat) (dir : Fat32DirRef) (name : List UInt8) :
    Fat32M (Option Fat32DirItem) :=
  fat32FindItemFrom fuel name fuel (fat32CursorInit dir)

def fat32FindEntryInDir (fuel : Nat) (dir : Fat32DirRef) (name : List UInt8) :
    Fat32M (Option Fat32DirSlot) := do
  match ← fat32FindItemInDir fuel dir name with
  | none => pure none
  | some item => pure (some ⟨true, dir.isRoot, item.sectorLba, item.byteOffset, item.entry⟩)

/-! ## Free slots -/

/-- A slot with a zeroed entry in the sector `sectorIndex` of a directory. -/
def fat32FreshSlot (s : Fat32) (dir : Fat32DirRef) (cluster sectorIndex entryIndex : Nat) :
    Fat32DirSlot :=
  ⟨true, dir.isRoot,
    w32 (fat32ClusterToLba s cluster + sectorIndex % s.bpb.sectorsPerCluster), 32 * entryIndex, Block.zero⟩

/-- The loop of `fat32_find_free_slot`, with `n` sectors still to look at. -/
def fat32FindFreeSlotFrom (fuel : Nat) (dir : Fat32DirRef) :
    Nat → Nat → Fat32M (Option Fat32DirSlot)
  | 0, _ => pure none
  | n + 1, sectorIndex => do
      match ← fat32ReadDirSector dir sectorIndex with
      | none =>
        if ← fat32ExtendDir fuel dir then fat32FindFreeSlotFrom fuel dir n (sectorIndex + 1)
        else pure none
      | some (sector, cluster) =>
        match (List.range 16).find? fun i =>
            sector.byte (32 * i) == 0x00 || sector.byte (32 * i) == 0xE5 with
        | some i =>
          let s ← get
          pure (some (fat32FreshSlot s dir cluster sectorIndex i))
        | none => fat32FindFreeSlotFrom fuel dir n (sectorIndex + 1)

def fat32FindFreeSlot (fuel : Nat) (dir : Fat32DirRef) : Fat32M (Option Fat32DirSlot) := do
  let s ← get
  let sectorLimit := if s.bpb.sectorsPerCluster = 0 then 1 else s.bpb.sectorsPerCluster * 32
  fat32FindFreeSlotFrom fuel dir sectorLimit 0

def fat32WriteSlot (slot : Fat32DirSlot) : Fat32M Bool := do
  let sector ← readSector slot.sectorLba
  let sector := sector.patch slot.byteOffset (slot.entry.bytes 0 32)
  change fun s => fat32LoggedWriteSector s slot.sectorLba sector
  pure true

def fat32DeleteAt (lba off : Nat) : Fat32M Unit := do
  let sector ← readSector lba
  change fun s => fat32LoggedWriteSector s lba (sector.patch off [0xE5])

def fat32DeleteItemSlots (item : Fat32DirItem) : Fat32M Unit := do
  item.lfn.forM fun slot => fat32DeleteAt slot.lba slot.off
  fat32DeleteAt item.sectorLba item.byteOffset

/-- The first search of `fat32_alloc_append_slots`: the end marker of a directory. -/
def fat32FindEndMarker (dir : Fat32DirRef) : Nat → Nat → Fat32M (Option (Nat × Nat))
  | 0, _ => outOfFuel
  | fuel + 1, si => do
      match ← fat32ReadDirSector dir si with
      | none => pure none
      | some (sector, _) =>
        match (List.range 16).find? fun ei => sector.byte (32 * ei) == 0x00 with
        | some ei => pure (some (si, ei))
        | none => fat32FindEndMarker dir fuel (w32 (si + 1))

/-- The number of sectors of a directory from `s2` on. -/
def fat32CountDirSectors (dir : Fat32DirRef) : Nat → Nat → Fat32M Nat
  | 0, _ => outOfFuel
  | fuel + 1, s2 => do
      match ← fat32ReadDirSector dir s2 with
      | none => pure 0
      | some _ =>
        let rest ← fat32CountDirSectors dir fuel (w32 (s2 + 1))
        pure (rest + 1)

/-- The last loop of `fat32_alloc_append_slots`: `count` slots in a row.  A sector that
cannot be read leaves the cluster as it was. -/
def fat32TakeSlots (dir : Fat32DirRef) : Nat → Nat → Nat → Nat → Fat32M (List Fat32DirSlot)
  | 0, _, _, _ => pure []
  | count + 1, csi, cei, csc => do
      let s ← get
      let slot := fat32FreshSlot s dir csc csi cei
      if 16 ≤ cei + 1 then
        let csc ← (do
          match ← fat32ReadDirSector dir (w32 (csi + 1)) with
          | some (_, cluster) => pure cluster
          | none => pure csc)
        let rest ← fat32TakeSlots dir count (w32 (csi + 1)) 0 csc
        pure (slot :: rest)
      else
        let rest ← fat32TakeSlots dir count csi (cei + 1) csc
        pure (slot :: rest)

/-- The attempts of `fat32_alloc_append_slots`. -/
def fat32AllocAppendFrom (fuel : Nat) (dir : Fat32DirRef) (count : Nat) :
    Nat → Fat32M (Option (List Fat32DirSlot))
  | 0 => pure none
  | attempts + 1 => do
      match ← fat32FindEndMarker dir fuel 0 with
      | none =>
        if ← fat32ExtendDir fuel dir then fat32AllocAppendFrom fuel dir count attempts else pure none
      | some (si, ei) =>
        let behind ← fat32CountDirSectors dir fuel (w32 (si + 1))
        if 16 - ei + 16 * behind < count then
          if ← fat32ExtendDir fuel dir then fat32AllocAppendFrom fuel dir count attempts else pure none
        else
          match ← fat32ReadDirSector dir si with
          | some (_, csc) =>
            let slots ← fat32TakeSlots dir count si ei csc
            pure (some slots)
          | none => pure none

def fat32AllocAppendSlots (fuel : Nat) (dir : Fat32DirRef) (count : Nat) :
    Fat32M (Option (List Fat32DirSlot)) :=
  fat32AllocAppendFrom fuel dir count 128

/-! ## Creating an entry -/

/-- The search of `fat32_create_named_entry` for an unused short name, from `num` on. -/
def fat32ResolveShort (fuel : Nat) (dir : Fat32DirRef) (longName : List UInt8) :
    Nat → Nat → Fat32M (Option (List UInt8))
  | 0, _ => pure none
  | n + 1, num => do
      let short := fat32LfnMakeShort longName num
      match ← fat32FindEntryInDir fuel dir (fat32DecodeName short) with
      | none => pure (some short)
      | some _ => fat32ResolveShort fuel dir longName n (num + 1)

/-- The long-name entry with ordinal `ord` of `lfnCount`. -/
def fat32LfnEntry (longName : List UInt8) (lfnCount ord : Nat) (chksum : UInt8) : Fat32DirEntry :=
  let namelen := min longName.length 255
  let first := if ord = lfnCount then UInt8.ofNat ord ||| 0x40 else UInt8.ofNat ord
  let e : Fat32DirEntry := ((Block.zero.patch 0 [first]).patch 11 [0x0F]).patch 13 [chksum]
  -- one zero ends the name, and 0xFFFF fills the rest of the block it stands in
  (List.range 13).foldl (fun e idx =>
    let gi := (ord - 1) * 13 + idx
    let ch := if gi < namelen then (longName.getD gi 0).toNat
      else if gi = namelen ∨ idx = 0 then 0x0000 else 0xFFFF
    e.patch (lfnCharOff.getD idx 0) (le16 ch)) e

def fat32CreateNamedEntry (fuel : Nat) (dir : Fat32DirRef) (longName : List UInt8) :
    Fat32M (Option Fat32DirSlot) := do
  if !fat32NameNeedsLfn longName then
    match ← fat32FindFreeSlot fuel dir with
    | none => pure none
    | some slot =>
      pure (some { slot with entry := slot.entry.setName (fat32FormatComponent longName) })
  else
    let namelen := min longName.length 255
    match ← fat32ResolveShort fuel dir longName 99999 1 with
    | none => pure none
    | some short =>
      let lfnCount := min (max ((namelen + 12) / 13) 1) 20
      match ← fat32AllocAppendSlots fuel dir (lfnCount + 1) with
      | none => pure none
      | some slots =>
        let chksum := fat32LfnChecksum short
        -- the first slot takes the last block of the name
        (List.range lfnCount).forM fun k => do
          match slots[k]? with
          | some slot =>
            let _ ← fat32WriteSlot
              { slot with entry := fat32LfnEntry longName lfnCount (lfnCount - k) chksum }
            pure ()
          | none => pure ()
        pure ((slots[lfnCount]?).map fun slot => { slot with entry := slot.entry.setName short })

/-! ## Paths -/

/-- `fat32_split_path_component`: the first component and what follows it. -/
def fat32SplitPathComponent (path : List UInt8) : Option (List UInt8 × List UInt8) :=
  let path := path.dropWhile (· == 0x2F)
  if path.isEmpty then none
  else
    let component := (path.takeWhile (· != 0x2F)).take 255
    some (component, (path.drop component.length).dropWhile (· == 0x2F))

/-- The loop of `fat32_resolve_parent`.  Every round consumes at least one byte of the path. -/
def fat32ResolveParentFrom (fuel : Nat) :
    Nat → Fat32DirRef → List UInt8 → List UInt8 → Fat32M (Option (Fat32DirRef × List UInt8))
  | 0, _, _, _ => outOfFuel
  | n + 1, dir, component, cursor => do
      match fat32SplitPathComponent cursor with
      | none => pure (some (dir, component))
      | some (next, rest) =>
        match ← fat32FindEntryInDir fuel dir component with
        | none => pure none
        | some slot =>
          if slot.entry.isDirectory then
            fat32ResolveParentFrom fuel n ⟨false, slot.entry.cluster⟩ next rest
          else pure none

/-- `fat32_resolve_parent`: the directory and the last component, empty for the root itself. -/
def fat32ResolveParent (fuel : Nat) (path : List UInt8) :
    Fat32M (Option (Fat32DirRef × List UInt8)) := do
  let s ← get
  let root : Fat32DirRef := ⟨true, s.bpb.rootCluster⟩
  match fat32SplitPathComponent path with
  | none => pure (some (root, []))
  | some (component, cursor) => fat32ResolveParentFrom fuel (path.length + 1) root component cursor

/-- `fat32_resolve_path` for a path that names an entry: the directory and the slot.  For
the root itself the source answers with a slot that is not valid, which every caller
refuses. -/
def fat32ResolvePath (fuel : Nat) (path : List UInt8) :
    Fat32M (Option (Fat32DirRef × Fat32DirSlot)) := do
  match ← fat32ResolveParent fuel path with
  | none => pure none
  | some (parent, component) =>
    if component.isEmpty then pure none
    else
      match ← fat32FindEntryInDir fuel parent component with
      | none => pure none
      | some slot => pure (some (parent, slot))

end Monios.Model
