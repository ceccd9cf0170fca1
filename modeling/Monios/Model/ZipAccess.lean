import Monios.Model.InflateAccess
import Monios.Model.Zip

/-!
# The ZIP reader with its accesses

`zip_reader_open` and `zip_reader_extract` of `lib/zip.c` as computations that log the bytes of the
archive they read, the bytes of the output they read and write, and the 32-bit sums and differences
of offsets they form.  The conditions of the source are checked one after the other, as `||` does.

The state is the memory at `out`, and opening an archive works in any.
-/

set_option autoImplicit false

namespace Monios.Model.ZipAccess

open Monios.Library Monios.Library.Traced Monios.Model.Crc32 Monios.Model.Zcomp Monios.Model.Zip
open Monios.Model.Inflate (toInt)

inductive Event
  | read (i : Nat)
  | check (i : Nat)
  | write (i : Nat)
  | sum (a b : Nat)
  | diff (a b : Nat)
  deriving DecidableEq

abbrev Reader (α : Type) : Type := Traced Zcomp.Memory Event α

def rd16 (p : List UInt8) (o : Nat) : Reader Nat := do
  emit (.read o)
  emit (.read (o + 1))
  pure (readU16 p o)

def rd32 (p : List UInt8) (o : Nat) : Reader Nat := do
  emit (.read o)
  emit (.read (o + 1))
  emit (.read (o + 2))
  emit (.read (o + 3))
  pure (readU32 p o)

def add (a b : Nat) : Reader Nat := do
  emit (.sum a b)
  pure ((a + b) % 2 ^ 32)

def sub (a b : Nat) : Reader Nat := do
  emit (.diff a b)
  pure ((a + 2 ^ 32 - b) % 2 ^ 32)

/-! ## `zip_reader_open` -/

/-- There is an end record at `i`, and what is behind it is its comment. -/
def isEocd (p : List UInt8) (i : Nat) : Reader Bool := do
  let signature ← rd32 p i
  if signature ≠ 0x06054b50 then pure false
  else do
    let comment ← rd16 p (i + 20)
    let behind ← sub p.length i
    let behind ← sub behind 22
    pure (comment == behind)

def scanLimit (size : Nat) : Reader Nat := if size > 65557 then sub size 65557 else pure 0

def scanEocd (p : List UInt8) (limit : Nat) : Nat → Reader Nat
  | 0 =>
    if limit = 0 then do
      let _ ← isEocd p 0
      pure 0
    else pure 0
  | i + 1 =>
    if i + 1 ≥ limit then do
      let found ← isEocd p (i + 1)
      if found then pure (i + 1) else scanEocd p limit i
    else pure (i + 1)

def goodEocd (p : List UInt8) (limit i : Nat) : Reader Bool :=
  if i < limit then pure false
  else do
    let found ← isEocd p i
    if !found then pure false
    else do
      let disk ← rd16 p (i + 4)
      if disk ≠ 0 then pure false
      else do
        let start ← rd16 p (i + 6)
        if start ≠ 0 then pure false
        else do
          let here ← rd16 p (i + 8)
          let total ← rd16 p (i + 10)
          pure (here == total)

/-- The loop that copies a name; `j` bytes are copied. -/
def readName (p : List UInt8) (off : Nat) : Nat → Nat → List UInt8 → Reader (Option (List UInt8))
  | 0, _, name => pure (some name)
  | rounds + 1, j, name => do
      let start ← add off 46
      let o ← add start j
      emit (.read o)
      if p.getD o 0 = 0 then pure none else readName p off rounds (j + 1) (name ++ [p.getD o 0])

/-- A round of the loop over the central directory, behind the checks of the signature, the flags
and the disk. -/
def readRecord (p : List UInt8) (cdEnd off : Nat) : Reader (Option (ZipEntry × Nat)) := do
  let method ← rd16 p (off + 10)
  let crc32 ← rd32 p (off + 16)
  let sizeCompressed ← rd32 p (off + 20)
  let sizeUncompressed ← rd32 p (off + 24)
  let nlen ← rd16 p (off + 28)
  let xlen ← rd16 p (off + 30)
  let clen ← rd16 p (off + 32)
  let localHeaderOffset ← rd32 p (off + 42)
  let size ← add 46 nlen
  let size ← add size xlen
  let recordSize ← add size clen
  if recordSize < 46 then pure none
  else do
    let room ← sub p.length off
    if recordSize > room then pure none
    else do
      let room ← sub cdEnd off
      if recordSize > room then pure none
      else if nlen ≥ nameMax then pure none
      else do
        let name ← readName p off nlen 0 []
        match name with
        | none => pure none
        | some name =>
          pure
            (some
              ({ name := name
                 method := method
                 crc32 := crc32
                 sizeCompressed := sizeCompressed
                 sizeUncompressed := sizeUncompressed
                 localHeaderOffset := localHeaderOffset
                 isDirectory := name.getLast? == some Zip.slash },
                recordSize))

/-- A round of the loop over the central directory: the entry, and the size of its record. -/
def readEntry (p : List UInt8) (cdOff cdSize off : Nat) : Reader (Option (ZipEntry × Nat)) := do
  let cdEnd ← add cdOff cdSize
  if off > cdEnd then pure none
  else do
    let rest ← sub cdEnd off
    if rest < 46 then pure none
    else do
      let signature ← rd32 p off
      if signature ≠ 0x02014b50 then pure none
      else do
        let flags ← rd16 p (off + 8)
        if flags &&& 0x41 ≠ 0 then pure none
        else do
          let disk ← rd16 p (off + 34)
          if disk ≠ 0 then pure none else readRecord p cdEnd off

/-- The loop over the central directory: whether all of its records were good, and the entries. -/
def readEntriesFrom (p : List UInt8) (cdOff cdSize : Nat) :
    Nat → Nat → List ZipEntry → Reader (Bool × List ZipEntry)
  | 0, _, entries => pure (true, entries)
  | count + 1, off, entries => do
      let entry ← readEntry p cdOff cdSize off
      match entry with
      | none => pure (false, entries)
      | some (e, recordSize) => do
          let next ← add off recordSize
          readEntriesFrom p cdOff cdSize count next (entries ++ [e])

/-- `zip_reader_open`, with an archive. -/
def zipReaderOpen (data : Buffer) : Reader (Int × ZipReader) :=
  let p := data.val
  let size := p.length
  if size < 22 then pure (-1, ⟨data, [], false⟩)
  else do
    let limit ← scanLimit size
    let last ← sub size 22
    let i ← scanEocd p limit last
    let good ← goodEocd p limit i
    if !good then pure (-1, ⟨data, [], false⟩)
    else do
      let count ← rd16 p (i + 10)
      let cdSize ← rd32 p (i + 12)
      let cdOff ← rd32 p (i + 16)
      if count > maxEntries then pure (-1, ⟨data, [], false⟩)
      else if cdOff > i then pure (-1, ⟨data, [], false⟩)
      else do
        let room ← sub i cdOff
        if cdSize > room then pure (-1, ⟨data, [], false⟩)
        else do
          let r ← readEntriesFrom p cdOff cdSize count cdOff []
          match r with
          | (false, entries) => pure (-1, ⟨data, entries, false⟩)
          | (true, entries) => pure (0, ⟨data, entries, true⟩)

/-! ## `zip_reader_extract` -/

def dataOffset (p : List UInt8) (e : ZipEntry) : Reader (Option Nat) :=
  if e.localHeaderOffset > p.length then pure none
  else do
    let rest ← sub p.length e.localHeaderOffset
    if rest < 30 then pure none
    else do
      let signature ← rd32 p e.localHeaderOffset
      if signature ≠ 0x04034b50 then pure none
      else do
        let nlen ← rd16 p (e.localHeaderOffset + 26)
        let xlen ← rd16 p (e.localHeaderOffset + 28)
        let dataOff ← add e.localHeaderOffset 30
        let variableLen ← add nlen xlen
        let room ← sub p.length dataOff
        if variableLen > room then pure none
        else do
          let dataOff ← add dataOff variableLen
          let room ← sub p.length dataOff
          if e.sizeCompressed > room then pure none else pure (some dataOff)

/-- The loop of `memcpy`; `i` bytes are copied. -/
def copyStored (data : List UInt8) (dataOff : Nat) : Nat → Nat → Reader Unit
  | 0, _ => pure ()
  | rounds + 1, i => do
      emit (.read (dataOff + i))
      emit (.write i)
      copyStored data dataOff rounds (i + 1)

/-- What an access of `inflate_raw` is, when its input is at `base` in the archive. -/
def accessAt (base : Nat) : InflateAccess.Access → List Event
  | .input i => [.read (base + i)]
  | .copied i => [.check i]
  | .output i => [.write i]
  | .header pos => [.sum pos 4]
  | .contents pos len _ => [.sum pos len]
  | .exhausted => []
  | .table _ => []

theorem length_entryData_lt (data : Buffer) (e : ZipEntry) (dataOff : Nat) :
    (slice data.val dataOff e.sizeCompressed).length < 2 ^ 32 := length_slice_lt data _ _

def entryData (data : Buffer) (e : ZipEntry) (dataOff : Nat) : Buffer :=
  ⟨slice data.val dataOff e.sizeCompressed, length_entryData_lt data e dataOff⟩

/-- `inflate_raw`, on the data of an entry. -/
def inflateEntry (limit : Nat) (data : Buffer) (e : ZipEntry) (dataOff : Nat) (outCap : UInt32) :
    Reader (Option Int) :=
  fun out =>
    (InflateAccess.inflateRaw limit (entryData data e dataOff) out outCap,
      InflateAccess.inflateMemory limit (entryData data e dataOff) out outCap,
      (InflateAccess.inflateLog limit (entryData data e dataOff) out outCap).flatMap (accessAt dataOff))

/-- The loop of `crc32_buf`; `i` bytes are read. -/
def readOut : Nat → Nat → Reader Unit
  | 0, _ => pure ()
  | rounds + 1, i => do
      emit (.check i)
      readOut rounds (i + 1)

def checkExpanded (e : ZipEntry) (expanded : Int) : Reader Int := do
  if (expanded % 2 ^ 32).toNat ≠ e.sizeUncompressed then pure (-1)
  else do
    readOut (expanded % 2 ^ 32).toNat 0
    let out ← reads id
    if (crc32Buf (load out 0 (expanded % 2 ^ 32).toNat)).toNat ≠ e.crc32 then pure (-1) else pure expanded

/-- `zip_reader_extract`, with a buffer, in loops of at most `limit` rounds of `inflate_raw`: the
result when it returns. -/
def zipReaderExtract (limit : Nat) (z : ZipReader) (index : Nat) (outCap : UInt32) :
    Reader (Option Int) :=
  if z.ok = false then pure (some (-1))
  else
    match z.entries[index]? with
    | none => pure (some (-1))
    | some e =>
      if e.sizeUncompressed > outCap.toNat ∨ e.sizeUncompressed > 0x7FFFFFFF then pure (some (-1))
      else do
        let dataOff ← dataOffset z.data.val e
        match dataOff with
        | none => pure (some (-1))
        | some dataOff =>
          if e.method = methodStore then
            if e.sizeCompressed > outCap.toNat then pure (some (-1))
            else do
              copyStored z.data.val dataOff e.sizeCompressed 0
              modifies fun out => store out 0 (slice z.data.val dataOff e.sizeCompressed)
              let r ← checkExpanded e (toInt e.sizeCompressed)
              pure (some r)
          else if e.method = methodDeflate then do
            let expanded ← inflateEntry limit z.data e dataOff outCap
            match expanded with
            | none => pure none
            | some expanded =>
              if expanded < 0 then pure (some (-1))
              else do
                let r ← checkExpanded e expanded
                pure (some r)
          else pure (some (-1))

end Monios.Model.ZipAccess
