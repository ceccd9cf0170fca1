import Monios.Library.ByteMemory
import Monios.Library.Traced

/-!
# The directory index of NTFS

The index in the value of `$INDEX_ROOT`, from `fs/ntfs.c`: what `ntfs_mkdir` makes of it, its
entries added and removed, and its readers.  The memory starts with the value of the attribute
(`index_data`) and goes on behind it; each access is logged with its offset and its length.  The MFT
records are read and written without failure, and the index has no allocation.
-/

set_option autoImplicit false

namespace Monios.Model.NtfsIndex

open Monios.Library

abbrev Index := Traced (Nat → UInt8) (Nat × Nat)

def littleValue (bytes : List UInt8) : Nat := bytes.foldr (fun b n => b.toNat + 256 * n) 0

def littleBytes : Nat → Nat → List UInt8
  | 0, _ => []
  | n + 1, v => UInt8.ofNat v :: littleBytes n (v / 256)

def get (offset bytes : Nat) : Index Nat := do
  Traced.emit (offset, bytes)
  Traced.reads fun m => littleValue (load m offset bytes)

def put (offset : Nat) (bytes : List UInt8) : Index Unit := do
  Traced.emit (offset, bytes.length)
  Traced.modifies fun m => store m offset bytes

/-- `sizeof(ntfs_index_entry_t)` and the offsets of `key` in it and of `name` in
`ntfs_file_name_attr_t` -/
def entrySize : Nat := 21

def keyOffset : Nat := 20

def nameOffset : Nat := 80

def sum32 (a b : Nat) : Nat := (a + b) % 2 ^ 32

/-- `NTFS_INDEX_ENTRY_FLAG_END` and `NTFS_INDEX_ENTRY_FLAG_LAST` -/
def isEnd (flags : Nat) : Bool := flags % 2 == 1

def isLast (flags : Nat) : Bool := flags / 2 % 2 == 1

/-! ## Names -/

def utf16Unit (c : UInt8) (rest : List UInt8) : Nat × List UInt8 :=
  if c < 0x80 then (c.toNat, rest)
  else match rest with
    | [] => (c.toNat, rest)
    | b1 :: tail =>
      if c &&& 0xE0 = 0xC0 then ((c &&& 0x1F).toNat * 64 + (b1 &&& 0x3F).toNat, tail)
      else match tail with
        | [] => (c.toNat, rest)
        | b2 :: tail' =>
          if c &&& 0xF0 = 0xE0 then
            ((c &&& 0x0F).toNat * 4096 + (b1 &&& 0x3F).toNat * 64 + (b2 &&& 0x3F).toNat, tail')
          else (c.toNat, rest)

/-- The loop of `ntfs_utf8_to_utf16`, with room for `room` units more; every round takes a byte at
least. -/
def utf16From : Nat → Nat → List UInt8 → List Nat
  | rounds + 1, room + 1, c :: rest =>
    let (unit, rest) := utf16Unit c rest
    unit :: utf16From rounds room rest
  | _, _, _ => []

def ntfsUtf8ToUtf16 (utf8 : List UInt8) (maxChars : Nat) : List Nat :=
  utf16From utf8.length (maxChars - 1) utf8

/-- The bytes of `ntfs_utf16_to_utf8` for a unit -/
def utf8Unit (ch : Nat) : List UInt8 :=
  if ch < 0x80 then [UInt8.ofNat ch]
  else if ch < 0x800 then [UInt8.ofNat (0xC0 + ch / 64), UInt8.ofNat (0x80 + ch % 64)]
  else [UInt8.ofNat (0xE0 + ch / 4096), UInt8.ofNat (0x80 + ch / 64 % 64), UInt8.ofNat (0x80 + ch % 64)]

/-- `ntfs_utf16_to_utf8` for the units at `offset`, with the bytes so far -/
def ntfsUtf16ToUtf8 (utf8Size : Nat) : Nat → Nat → List UInt8 → Index (List UInt8)
  | _, 0, utf8 => pure utf8
  | offset, len + 1, utf8 =>
    if utf8.length + 1 < utf8Size then do
      let ch ← get offset 2
      if 0x80 ≤ ch ∧ utf8Size ≤ utf8.length + (utf8Unit ch).length then pure utf8
      else ntfsUtf16ToUtf8 utf8Size (offset + 2) len (utf8 ++ utf8Unit ch)
    else pure utf8

def lower (c : UInt8) : UInt8 := if 0x41 ≤ c ∧ c ≤ 0x5A then c + 0x20 else c

def nameAt (offset len : Nat) : Index (List UInt8) := do
  let utf8 ← ntfsUtf16ToUtf8 256 offset len []
  pure (utf8.takeWhile (· ≠ 0))

def ntfsCompareName (name : List UInt8) (offset len : Nat) : Index Bool := do
  let utf8 ← nameAt offset len
  pure (name.map lower == utf8.map lower)

/-! ## Readers -/

/-- `ntfs_index_bounds` for the index header at `base` -/
def ntfsIndexBounds (base indexSize : Nat) : Index (Option (Nat × Nat)) :=
  if indexSize < 16 then pure none
  else do
    let entriesOffset ← get base 4
    let entriesEnd ← get (base + 4) 4
    pure (if entriesOffset < 16 ∨ entriesEnd < entriesOffset ∨ indexSize < entriesEnd then none
      else some (entriesOffset, entriesEnd))

def ntfsIndexEntryLen (entry available : Nat) : Index (Option Nat) := do
  let len ← get entry 8
  pure (if len = 0 ∨ available < len ∨ 0xFFFFFFFF < len ∨ len < entrySize then none else some len)

/-- `ntfs_index_entry_file_name`: where the key is, and `name_length` -/
def ntfsIndexEntryFileName (entry entryLen : Nat) : Index (Option (Nat × Nat)) :=
  if entryLen ≤ keyOffset then pure none
  else do
    let keyLength ← get (entry + 8) 2
    if entryLen - keyOffset < keyLength ∨ keyLength < nameOffset then pure none
    else do
      let nameLength ← get (entry + keyOffset + 10) 2
      pure (if (keyLength - nameOffset) / 2 < nameLength then none else some (entry + keyOffset, nameLength))

/-- The loop of `ntfs_find_in_index`; an entry takes a byte at least. -/
def findFrom (base entriesEnd : Nat) (name : List UInt8) : Nat → Nat → Index (Option Nat)
  | 0, _ => pure none
  | rounds + 1, offset =>
    if entriesEnd < offset + entrySize then pure none
    else do
      match ← ntfsIndexEntryLen (base + offset) (entriesEnd - offset) with
      | none => pure none
      | some len =>
        let flags ← get (base + offset + 10) 2
        if isEnd flags then
          if isLast flags then pure none else findFrom base entriesEnd name rounds (offset + len)
        else match ← ntfsIndexEntryFileName (base + offset) len with
          | none => pure none
          | some (key, nameLength) =>
            if ← ntfsCompareName name (key + nameOffset) nameLength then
              let reference ← get (base + offset + 12) 8
              pure (some (reference % 2 ^ 48))
            else if isLast flags then pure none
            else findFrom base entriesEnd name rounds (offset + len)

def ntfsFindInIndex (base indexSize : Nat) (name : List UInt8) : Index (Option Nat) := do
  match ← ntfsIndexBounds base indexSize with
  | none => pure none
  | some (entriesOffset, entriesEnd) => findFrom base entriesEnd name entriesEnd entriesOffset

/-- The loop of `ntfs_list_index_entries`, with the text so far -/
def listFrom (base entriesEnd bufferSize : Nat) : Nat → Nat → List UInt8 → Index (Bool × List UInt8)
  | 0, _, text => pure (true, text)
  | rounds + 1, offset, text =>
    if entriesEnd < offset + entrySize then pure (true, text)
    else do
      match ← ntfsIndexEntryLen (base + offset) (entriesEnd - offset) with
      | none => pure (true, text)
      | some len =>
        let flags ← get (base + offset + 10) 2
        if isEnd flags then
          if isLast flags then pure (true, text) else listFrom base entriesEnd bufferSize rounds (offset + len) text
        else match ← ntfsIndexEntryFileName (base + offset) len with
          | none => pure (false, text)
          | some (key, nameLength) =>
            let name ← nameAt (key + nameOffset) nameLength
            if name = [] ∨ name.head? = some 0x24 ∧ 1 < name.length then
              listFrom base entriesEnd bufferSize rounds (offset + len) text
            else if bufferSize ≤ text.length + name.length + 2 then pure (false, text)
            else
              let attributes ← get (key + 72) 4
              let text := text ++ name ++ (if attributes / 16 % 2 = 1 then [0x2F] else []) ++ [0x0A]
              if isLast flags then pure (true, text) else listFrom base entriesEnd bufferSize rounds (offset + len) text

def ntfsListIndexEntries (base indexSize bufferSize : Nat) : Index (Bool × List UInt8) := do
  match ← ntfsIndexBounds base indexSize with
  | none => pure (false, [])
  | some (entriesOffset, entriesEnd) =>
    listFrom base entriesEnd bufferSize entriesEnd entriesOffset []

/-- The emptiness check of `ntfs_rmdir`: has it come to an end after `rounds`, and is there no
child? -/
def rmdirFrom : Nat → Nat → Index (Option Bool)
  | 0, _ => pure none
  | rounds + 1, offset => do
    let total ← get 20 4
    if total < offset + entrySize then pure (some true)
    else
      let elen := (← get offset 8) % 2 ^ 32
      if elen = 0 then pure (some true)
      else if isEnd (← get (offset + 10) 2) then rmdirFrom rounds (sum32 offset elen)
      else pure (some false)

def ntfsRmdirEmpty (rounds : Nat) : Index (Option Bool) := do
  let offset ← get 16 4
  rmdirFrom rounds offset

/-! ## Writers -/

def clearLast (used : Nat) : Nat → Nat → Index Bool
  | 0, _ => pure false
  | rounds + 1, off =>
    if used < sum32 off 8 then pure true
    else do
      let elen := (← get off 8) % 2 ^ 32
      if elen = 0 ∨ used < sum32 off elen then pure true
      else if sum32 off elen = used then
        let flags ← get (off + 10) 2
        put (off + 10) (littleBytes 2 (if isLast flags then flags - 2 else flags))
        pure true
      else clearLast used rounds (sum32 off elen)

/-- `entry_size` for a name of `chars` units -/
def addedSize (chars : Nat) : Nat := (0x10 + (0x42 + chars * 2) + 7) / 8 * 8

/-- `ntfs_index_add_entry` on a value of `indexSize` bytes: its answer, if it comes to an end -/
def ntfsIndexAddEntry (rounds indexSize parentMft childRef : Nat) (name : List UInt8)
    (isDir : Bool) :
    Index (Option Bool) :=
  if indexSize < 16 then pure (some false)
  else do
    let entriesOffset ← get 16 4
    let used ← get 20 4
    let units := ntfsUtf8ToUtf16 name 255
    let fnSize := 0x42 + units.length * 2
    let size := addedSize units.length
    if indexSize < sum32 used size then pure (some false)
    else
      put (used + 12) (littleBytes 8 childRef)
      put used (littleBytes 8 size)
      put (used + 8) (littleBytes 2 fnSize)
      put (used + 10) (littleBytes 2 2)
      let ended ← if entriesOffset < used then clearLast used rounds entriesOffset else pure true
      if !ended then pure none
      else
        let fn := used + keyOffset
        put fn (List.replicate fnSize 0)
        put fn (littleBytes 8 childRef)
        put (fn + 16) (littleBytes 8 parentMft)
        -- `(uint8_t) name_chars`
        put (fn + 10) (littleBytes 2 (units.length % 256))
        put (fn + 72) (littleBytes 4 (if isDir then 0x10 else 0x20))
        put (fn + nameOffset) (units.flatMap (littleBytes 2))
        put 20 (littleBytes 4 (sum32 used size))
        let allocated ← get 24 4
        let total ← get 20 4
        if allocated < total then put 24 (littleBytes 4 total)
        pure (some true)

/-- The loop of `ntfs_index_remove_entry`: has it removed an entry? -/
def removeFrom (name : List UInt8) (entriesOffset : Nat) :
    Nat → Nat → Nat → Bool → Index (Option Bool)
  | 0, _, _, _ => pure none
  | rounds + 1, entriesEnd, offset, found =>
    if entriesEnd < offset + entrySize then pure (some found)
    else do
      let len := (← get offset 8) % 2 ^ 32
      if len = 0 ∨ entriesEnd < sum32 offset len then pure (some found)
      else
        let flags ← get (offset + 10) 2
        let nameLength ← if !isEnd flags && keyOffset < len then get (offset + keyOffset + 10) 2 else pure 0
        let keyLength ← if !isEnd flags && keyOffset < len then get (offset + 8) 2 else pure 0
        let same ← if !isEnd flags && keyOffset < len && nameOffset + nameLength * 2 ≤ keyLength
          then ntfsCompareName name (offset + keyOffset + nameOffset) nameLength else pure false
        if same then
          let tail := entriesEnd - (offset + len)
          Traced.emit (offset + len, tail)
          Traced.emit (offset, tail)
          Traced.modifies fun m => store m offset (load m (offset + len) tail)
          let total ← get 20 4
          put 20 (littleBytes 4 (total + 2 ^ 32 - len))
          let entriesEnd ← get 20 4
          removeFrom name entriesOffset rounds entriesEnd entriesOffset true
        else if isLast flags then pure (some found)
        else removeFrom name entriesOffset rounds entriesEnd (sum32 offset len) found

def ntfsIndexRemoveEntry (rounds indexSize : Nat) (name : List UInt8) : Index (Option Bool) :=
  if indexSize < 16 then pure (some false)
  else do
    let entriesOffset ← get 16 4
    let entriesEnd ← get 20 4
    removeFrom name entriesOffset rounds entriesEnd entriesOffset false

/-! ## The empty index -/

/-- The value that `ntfs_mkdir` makes, in front of the rest of the record -/
def mkdirIndex (rest : Nat → UInt8) : Nat → UInt8 :=
  let m := store rest 0 (List.replicate 0x100 0)
  let m := store (store (store m 0 (littleBytes 4 0x30)) 4 (littleBytes 4 1)) 8 (littleBytes 4 0xD8 ++ [1])
  let m := store (store (store m 16 (littleBytes 4 0x10)) 20 (littleBytes 4 0x10)) 24 (littleBytes 4 0x100 ++ [0])
  store (store m 42 (littleBytes 2 3)) 32 (littleBytes 8 8)

end Monios.Model.NtfsIndex
