import Monios.Library.ByteMemory
import Monios.Model.Inflate
import Monios.Model.Path

/-!
# ZIP archives

The reader and the writer of `lib/zip.c`.  The writer only ever appends, so that its output is the
list of the bytes that have been written, and `offset` the number of these.  An archive that is read
is a buffer, and what is extracted is written to a memory with a capacity.

Names are C strings: the bytes before the terminator, and the terminator has room in `name`.
-/

set_option autoImplicit false

namespace Monios.Model.Zip

open Monios.Library Monios.Model.Crc32 Monios.Model.Zcomp Monios.Model.Inflate

def methodStore : Nat := 0

def methodDeflate : Nat := 8

def maxEntries : Nat := 64

def nameMax : Nat := 128

/-- `zip_entry_t` -/
structure ZipEntry where
  name : List UInt8
  method : Nat
  crc32 : Nat
  sizeCompressed : Nat
  sizeUncompressed : Nat
  localHeaderOffset : Nat
  isDirectory : Bool
  deriving DecidableEq

/-- `'/'` -/
def slash : UInt8 := 47

/-! ## The reader -/

/-- `zip_reader_t` -/
structure ZipReader where
  data : Buffer
  entries : List ZipEntry
  ok : Bool

/-- There is an end record at `i`, and what is behind it is its comment. -/
def isEocd (p : List UInt8) (i : Nat) : Bool :=
  readU32 p i == 0x06054b50 && readU16 p (i + 20) == p.length - i - 22

def scanEocd (p : List UInt8) (limit : Nat) : Nat → Nat
  | 0 => 0
  | i + 1 => if i + 1 ≥ limit then if isEocd p (i + 1) then i + 1 else scanEocd p limit i else i + 1

/-- A round of the loop over the central directory: the entry, and the size of its record. -/
def readEntry (p : List UInt8) (cdEnd off : Nat) : Option (ZipEntry × Nat) :=
  if off > cdEnd ∨ cdEnd - off < 46 ∨ readU32 p off ≠ 0x02014b50 ∨ readU16 p (off + 8) &&& 0x41 ≠ 0 ∨
      readU16 p (off + 34) ≠ 0 then none
  else
    let nlen := readU16 p (off + 28)
    let recordSize := 46 + nlen + readU16 p (off + 30) + readU16 p (off + 32)
    if recordSize < 46 ∨ recordSize > p.length - off ∨ recordSize > cdEnd - off then none
    else if nlen ≥ nameMax then none
    else
      let name := slice p (off + 46) nlen
      if 0 ∈ name then none
      else
        some
          ({ name := name
             method := readU16 p (off + 10)
             crc32 := readU32 p (off + 16)
             sizeCompressed := readU32 p (off + 20)
             sizeUncompressed := readU32 p (off + 24)
             localHeaderOffset := readU32 p (off + 42)
             isDirectory := name.getLast? == some slash },
            recordSize)

/-- The loop over the central directory: whether all of its records were good, and the entries. -/
def readEntriesFrom (p : List UInt8) (cdEnd : Nat) :
    Nat → Nat → List ZipEntry → Bool × List ZipEntry
  | 0, _, entries => (true, entries)
  | count + 1, off, entries =>
    match readEntry p cdEnd off with
    | none => (false, entries)
    | some (e, recordSize) => readEntriesFrom p cdEnd count (off + recordSize) (entries ++ [e])

/-- `zip_reader_open`, with an archive. -/
def zipReaderOpen (data : Buffer) : Int × ZipReader :=
  let p := data.val
  let size := p.length
  if size < 22 then (-1, ⟨data, [], false⟩)
  else
    let limit := if size > 65557 then size - 65557 else 0
    let i := scanEocd p limit (size - 22)
    if i < limit ∨ readU32 p i ≠ 0x06054b50 ∨ readU16 p (i + 20) ≠ size - i - 22 ∨ readU16 p (i + 4) ≠ 0 ∨
        readU16 p (i + 6) ≠ 0 ∨ readU16 p (i + 8) ≠ readU16 p (i + 10) then (-1, ⟨data, [], false⟩)
    else
      let count := readU16 p (i + 10)
      let cdSize := readU32 p (i + 12)
      let cdOff := readU32 p (i + 16)
      if count > maxEntries then (-1, ⟨data, [], false⟩)
      else if cdOff > i ∨ cdSize > i - cdOff then (-1, ⟨data, [], false⟩)
      else
        match readEntriesFrom p (cdOff + cdSize) count cdOff [] with
        | (false, entries) => (-1, ⟨data, entries, false⟩)
        | (true, entries) => (0, ⟨data, entries, true⟩)

def dataOffset (p : List UInt8) (e : ZipEntry) : Option Nat :=
  if e.localHeaderOffset > p.length ∨ p.length - e.localHeaderOffset < 30 ∨ readU32 p e.localHeaderOffset ≠ 0x04034b50 then
    none
  else
    let dataOff := e.localHeaderOffset + 30
    let variableLen := readU16 p (e.localHeaderOffset + 26) + readU16 p (e.localHeaderOffset + 28)
    if variableLen > p.length - dataOff then none
    else if e.sizeCompressed > p.length - (dataOff + variableLen) then none
    else some (dataOff + variableLen)

theorem length_slice_lt (p : Buffer) (o n : Nat) : (slice p.val o n).length < 2 ^ 32 := by
  have hp := p.property
  unfold slice
  rw [List.length_take, List.length_drop]
  omega

def expand (data : Buffer) (e : ZipEntry) (dataOff : Nat) (out : Zcomp.Memory) (outCap : UInt32) :
    Option Int × Zcomp.Memory :=
  if e.method = methodStore then
    if e.sizeCompressed > outCap.toNat then (none, out)
    else (some (toInt e.sizeCompressed), store out 0 (slice data.val dataOff e.sizeCompressed))
  else if e.method = methodDeflate then
    let (expanded, out) := inflateRaw ⟨slice data.val dataOff e.sizeCompressed, length_slice_lt data _ _⟩ out outCap
    if expanded < 0 then (none, out) else (some expanded, out)
  else (none, out)

/-- `zip_reader_extract`, with a buffer: the result, and the memory at `out`. -/
def zipReaderExtract (z : ZipReader) (index : Nat) (out : Zcomp.Memory) (outCap : UInt32) :
    Int × Zcomp.Memory :=
  if z.ok = false then (-1, out)
  else
    match z.entries[index]? with
    | none => (-1, out)
    | some e =>
      if e.sizeUncompressed > outCap.toNat ∨ e.sizeUncompressed > 0x7FFFFFFF then (-1, out)
      else
        match dataOffset z.data.val e with
        | none => (-1, out)
        | some dataOff =>
          match expand z.data e dataOff out outCap with
          | (none, out) => (-1, out)
          | (some expanded, out) =>
            if (expanded % 2 ^ 32).toNat ≠ e.sizeUncompressed then (-1, out)
            else if (crc32Buf (load out 0 (expanded % 2 ^ 32).toNat)).toNat ≠ e.crc32 then (-1, out)
            else (expanded, out)

/-! ## The writer -/

/-- `zip_writer_t`: what was written, the capacity and the entries. -/
structure ZipWriter where
  out : List UInt8
  outCap : UInt32
  entries : List ZipEntry

/-- `zip_writer_init`, with a buffer. -/
def zipWriterInit (cap : UInt32) : ZipWriter := ⟨[], cap, []⟩

def pushBytes (w : ZipWriter) (data : List UInt8) : Option ZipWriter :=
  if w.out.length > w.outCap.toNat ∨ data.length > w.outCap.toNat - w.out.length then none
  else some { w with out := w.out ++ data }

/-- `header` -/
def localHeader (nlen crc size : Nat) : List UInt8 :=
  le32 0x04034b50 ++ (le16 20 ++ (le16 0x0800 ++ (le16 methodStore ++ (List.replicate 4 0 ++ (le32 crc ++ (le32 size ++
    (le32 size ++ (le16 nlen ++ le16 0))))))))

def zipWriterAddFile (w : ZipWriter) (name : CString) (data : Buffer) : Option ZipWriter :=
  if w.entries.length ≥ maxEntries then none
  else
    let nlen := name.val.length
    let size := data.val.length
    if nlen ≥ nameMax then none
    else if w.out.length > w.outCap.toNat ∨ 30 + nlen > w.outCap.toNat - w.out.length ∨
        size > w.outCap.toNat - w.out.length - 30 - nlen then none
    else
      let localOff := w.out.length
      let crc := (crc32Buf data.val).toNat
      ((pushBytes w (localHeader nlen crc size)).bind fun w =>
        (pushBytes w name.val).bind fun w => if size > 0 then pushBytes w data.val else some w).map fun w =>
        { w with
          entries := w.entries ++
            [{ name := name.val
               method := methodStore
               crc32 := crc
               sizeCompressed := size
               sizeUncompressed := size
               localHeaderOffset := localOff
               isDirectory := name.val.getLast? == some slash }] }

def cdEntry (e : ZipEntry) : List UInt8 :=
  le32 0x02014b50 ++ (le16 20 ++ (le16 20 ++ (le16 0x0800 ++ (le16 e.method ++ (List.replicate 4 0 ++ (le32 e.crc32 ++
    (le32 e.sizeCompressed ++ (le32 e.sizeUncompressed ++ (le16 e.name.length ++ (List.replicate 12 0 ++
      le32 e.localHeaderOffset))))))))))

def eocd (count cdSize cdStart : Nat) : List UInt8 :=
  le32 0x06054b50 ++ (List.replicate 4 0 ++ (le16 count ++ (le16 count ++ (le32 cdSize ++ (le32 cdStart ++ le16 0)))))

/-- The loop of `zip_writer_finish`. -/
def pushDirectory (w : ZipWriter) : List ZipEntry → Option ZipWriter
  | [] => some w
  | e :: entries => (pushBytes w (cdEntry e)).bind fun w => (pushBytes w e.name).bind fun w => pushDirectory w entries

/-- `zip_writer_finish`: the result and the archive; nothing when the buffer is full. -/
def zipWriterFinish (w : ZipWriter) : Option (Int × List UInt8) :=
  let cdStart := w.out.length
  (pushDirectory w w.entries).bind fun w =>
    (pushBytes w (eocd w.entries.length (w.out.length - cdStart) cdStart)).map fun w => (toInt w.out.length, w.out)

end Monios.Model.Zip
