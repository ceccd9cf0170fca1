import Monios.Library.Bytes

/-!
# The PE loader

The header checks of `exec_validate_pe_header` and the section copies of
`exec_load_pe_sections` (`kernel/syscall/exec.c`), on the bytes of an image.
`loaderRanges` lists the file ranges these two functions take data from.  The
security directory entry is read as well, but only to note that there is one, and
is not in the list.
-/

set_option autoImplicit false

namespace Monios.Model

open Monios.Library

/-- `EXEC_LOAD_BASE` and `EXEC_IMAGE_LIMIT`. -/
def execLoadBase : Nat := 0x04000000

def execImageLimit : Nat := 0x043C0000

def execRangeValid (start size : Nat) : Bool :=
  size ≤ execImageLimit - execLoadBase && execLoadBase ≤ start && start < execImageLimit &&
    start + size ≤ execImageLimit

/-- The 64-bit value at `o`. -/
def readU64 (d : List UInt8) (o : Nat) : Nat := readU32 d o + 2 ^ 32 * readU32 d (o + 4)

section

variable (image : List UInt8)

/-- `e_lfanew` -/
def peOffset : Nat := readU32 image 0x3C

/-- Where `pe_optional_header64_t` starts: behind the signature and the file header. -/
def peOptionalOffset : Nat := peOffset image + 24

/-- `number_of_sections` -/
def peNumberOfSections : Nat := readU16 image (peOffset image + 6)

/-- `size_of_optional_header` -/
def peSizeOfOptionalHeader : Nat := readU16 image (peOffset image + 20)

/-- `section_header_offset` -/
def peSectionOffset : Nat := peOptionalOffset image + peSizeOfOptionalHeader image

/-- `image_base` -/
def peImageBase : Nat := readU64 image (peOptionalOffset image + 24)

/-- Where the header of section `i` starts. -/
def peSectionHeader (i : Nat) : Nat := peSectionOffset image + 40 * i

def execImageHasPeSignature : Bool :=
  64 ≤ image.length && readU16 image 0 == 0x5A4D && 64 ≤ peOffset image &&
    peOffset image < 2 ^ 31 && peOffset image + 4 ≤ image.length &&
    slice image (peOffset image) 4 == [0x50, 0x45, 0, 0]

def peSectionMemSize (i : Nat) : Nat :=
  max (readU32 image (peSectionHeader image i + 8)) (readU32 image (peSectionHeader image i + 16))

/-- The check `exec_validate_pe_header` makes for section `i`.  The sum with the image
base is a 64-bit one. -/
def peSectionOk (i : Nat) : Bool :=
  let start := (peImageBase image + readU32 image (peSectionHeader image i + 12)) % 2 ^ 64
  peSectionMemSize image i ≠ 0 && peImageBase image ≤ start && execRangeValid start (peSectionMemSize image i)

/-- Section `i` is executable and holds the entry point. -/
def peSectionHoldsEntry (entry i : Nat) : Bool :=
  let start := (peImageBase image + readU32 image (peSectionHeader image i + 12)) % 2 ^ 64
  (readU32 image (peSectionHeader image i + 36)).testBit 29 && start ≤ entry && entry - start < peSectionMemSize image i

/-- A data directory entry that is empty or a range of at least `least` bytes that does
not wrap around. -/
def peDirectoryOk (offset least : Nat) : Bool :=
  let rva := readU32 image offset
  let size := readU32 image (offset + 4)
  (rva == 0 && size == 0) || (rva ≠ 0 && least ≤ size && rva + size < 2 ^ 32)

def execValidatePeHeader : Bool :=
  let oo := peOptionalOffset image
  let isDll := (readU16 image (peOffset image + 22)).testBit 13
  let entryRva := readU32 image (oo + 16)
  let entry := (peImageBase image + entryRva) % 2 ^ 64
  let entryRequired := !isDll || entryRva ≠ 0
  let subsystem := readU16 image (oo + 68)
  let directories := readU32 image (oo + 108)
  execImageHasPeSignature image &&
    decide (oo + 240 ≤ image.length) &&
    readU16 image (peOffset image + 4) == 0x8664 &&
    peNumberOfSections image ≠ 0 &&
    (readU16 image (peOffset image + 22)).testBit 1 &&
    240 ≤ peSizeOfOptionalHeader image &&
    decide (peSectionOffset image + peNumberOfSections image * 40 ≤ image.length) &&
    readU16 image oo == 0x20B &&
    peImageBase image ≠ 0 && readU32 image (oo + 32) ≠ 0 && readU32 image (oo + 36) ≠ 0 &&
    readU32 image (oo + 60) ≠ 0 && readU32 image (oo + 60) ≤ image.length &&
    directories ≤ 16 && (subsystem == 1 || subsystem == 2 || subsystem == 3) &&
    (!entryRequired || (peImageBase image ≤ entry && execRangeValid entry 1)) &&
    (List.range (peNumberOfSections image)).all (peSectionOk image) &&
    (!entryRequired || (List.range (peNumberOfSections image)).any (peSectionHoldsEntry image entry)) &&
    (directories ≤ 2 || peDirectoryOk image (oo + 128) 16) &&
    (directories ≤ 4 || (peDirectoryOk image (oo + 144) 1 &&
        decide (readU32 image (oo + 144) + readU32 image (oo + 148) ≤ image.length)))

/-- The file ranges (offset, length) the loader takes its data from: the fields of the
headers, those of every section header, and the raw data of every section. -/
def loaderRanges : List (Nat × Nat) :=
  let pe := peOffset image
  let oo := peOptionalOffset image
  [(0, 2), (0x3C, 4), (pe, 4), (pe + 4, 4), (pe + 20, 4), (oo, 2), (oo + 16, 4), (oo + 24, 16),
    (oo + 60, 4), (oo + 68, 2), (oo + 108, 4), (oo + 112, 24)] ++
  (List.range (peNumberOfSections image)).flatMap fun i =>
    let sh := peSectionHeader image i
    [(sh + 8, 16), (sh + 36, 4), (readU32 image (sh + 20), readU32 image (sh + 16))]

/-- The loader uses the byte at `x`. -/
def LoaderUses (x : Nat) : Prop := ∃ r ∈ loaderRanges image, r.1 ≤ x ∧ x < r.1 + r.2

end

end Monios.Model

/-!
# Authenticode verification

`authenticode_verify_pe` of `kernel/net/authenticode.c`: where the certificate
table of an image is, which bytes of the image are hashed, and the hand-over to the
CMS verifier.  The hash and `authenticode_verify_cms` are parameters.
-/

namespace Monios.Model

open Monios.Library

/-- `sha256` and `authenticode_verify_cms`; the latter gets the CMS bytes and the file
digest and returns the signer id. -/
structure CmsPrimitives where
  sha256 : List UInt8 → List UInt8
  authenticodeVerifyCms : List UInt8 → List UInt8 → Option (List UInt8)

/-- The offsets `authenticode_verify_pe` works out. -/
structure CertLayout where
  optionalOffset : Nat
  securityDirOffset : Nat
  certOffset : Nat
  certSize : Nat
  certLength : Nat
  deriving DecidableEq, Repr

/-- The checks of `authenticode_verify_pe` on the headers, up to the security directory
entry: the offset of the optional header. -/
def authenticodeOptionalOffset (data : List UInt8) : Option Nat :=
  let size := data.length
  let pe := readU32 data 0x3C
  let optionalSize := readU16 data (pe + 20)
  let oo := pe + 24
  if size < 0x100 ∨ readU16 data 0 ≠ 0x5A4D then none
  else if size < pe + 24 ∨ readU32 data pe ≠ 0x00004550 then none
  else if optionalSize < 120 ∨ size < oo + optionalSize ∨ readU16 data oo ≠ 0x20B then none
  else if readU32 data (oo + 108) ≤ 4 ∨ optionalSize < 152 then none
  else some oo

/-- The checks on the security directory entry and on the WIN_CERTIFICATE it points to. -/
def authenticodeCertLayout (data : List UInt8) (oo : Nat) : Option CertLayout :=
  let size := data.length
  let sd := oo + 144
  let certOffset := readU32 data sd
  let certSize := readU32 data (sd + 4)
  let certLength := readU32 data certOffset
  let revision := readU16 data (certOffset + 4)
  if certOffset = 0 ∨ certSize < 8 ∨ size < certOffset + certSize ∨ certOffset < sd + 8 then none
  else if certLength < 8 ∨ certSize < certLength ∨ ¬ (revision = 0x0100 ∨ revision = 0x0200) ∨
      readU16 data (certOffset + 6) ≠ 0x0002 ∨ 256 * 1024 < certLength - 8 then none
  else some ⟨oo, sd, certOffset, certSize, certLength⟩

/-- The bytes `authenticode_compute_digest` feeds to the hash: everything but the
checksum, the security directory entry and the certificate table. -/
def authenticodeDigestInput (data : List UInt8) (l : CertLayout) : List UInt8 :=
  let checksum := l.optionalOffset + 64
  data.take checksum ++ slice data (checksum + 4) (l.securityDirOffset - checksum - 4) ++
    slice data (l.securityDirOffset + 8) (l.certOffset - l.securityDirOffset - 8) ++
    data.drop (l.certOffset + l.certSize)

/-- The layout of an image that gets as far as the CMS verifier.  The range checks
`authenticode_compute_digest` repeats all follow from those made before. -/
def authenticodeLayout (data : List UInt8) : Option CertLayout :=
  (authenticodeOptionalOffset data).bind (authenticodeCertLayout data)

def authenticodeCms (data : List UInt8) (l : CertLayout) : List UInt8 :=
  slice data (l.certOffset + 8) (l.certLength - 8)

/-- `authenticode_verify_pe`: the signer id of an accepted image. -/
def authenticodeVerifyPe (P : CmsPrimitives) (data : List UInt8) : Option (List UInt8) :=
  match authenticodeLayout data with
  | none => none
  | some l =>
    P.authenticodeVerifyCms (authenticodeCms data l) (P.sha256 (authenticodeDigestInput data l))

end Monios.Model
