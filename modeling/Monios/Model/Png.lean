import Monios.Library.ByteMemory
import Monios.Model.Inflate

/-!
# The PNG encoder

`png_put_chunk` and `png_encode_rgb` of `lib/png.c`.  The output buffer and the pixels are memories.
The data of a chunk may lie in the output buffer itself, and `memcpy` of `lib/string.c` copies byte
by byte with growing addresses.

The sizes that `png_encode_rgb` computes before it checks the capacity wrap in 32 bits; behind the
check nothing wraps in an image that fits.
-/

set_option autoImplicit false

namespace Monios.Model.Png

open Monios.Library Monios.Model.Crc32

abbrev Memory := Nat → UInt8

def be16 (v : Nat) : List UInt8 := [UInt8.ofNat (v / 2 ^ 8), UInt8.ofNat v]

def be32 (v : Nat) : List UInt8 :=
  [UInt8.ofNat (v / 2 ^ 24), UInt8.ofNat (v / 2 ^ 16), UInt8.ofNat (v / 2 ^ 8), UInt8.ofNat v]

/-! ## Chunks -/

inductive ChunkData
  | bytes (data : List UInt8)
  | inBuffer (addr len : Nat)

def ChunkData.len : ChunkData → Nat
  | .bytes data => data.length
  | .inBuffer _ len => len

/-- The bytes that `crc32_update` reads. -/
def ChunkData.read (mem : Memory) : ChunkData → List UInt8
  | .bytes data => data
  | .inBuffer addr len => load mem addr len

/-- `memcpy(p, data, len)` -/
def ChunkData.copyTo (p : Nat) (mem : Memory) : ChunkData → Memory
  | .bytes data => store mem p data
  | .inBuffer addr len => copyBytes p addr len mem

def pngPutChunk (offset cap : Nat) (type : List UInt8) (data : ChunkData) (mem : Memory) :
    Nat × Memory :=
  if (offset + 12 + data.len) % 2 ^ 32 > cap then (0, mem)
  else
    let mem := store mem offset (be32 data.len)
    let mem := store mem (offset + 4) type
    let crc := crc32Final (crc32Update (crc32Update crc32Init (load mem (offset + 4) 4)) (data.read mem))
    let mem := data.copyTo (offset + 8) mem
    let mem := store mem (offset + 8 + data.len) (be32 crc.toNat)
    ((offset + 12 + data.len) % 2 ^ 32, mem)

def signature : List UInt8 := [0x89, 0x50, 0x4E, 0x47, 0x0D, 0x0A, 0x1A, 0x0A]

/-- `"IHDR"` -/
def typeIhdr : List UInt8 := [73, 72, 68, 82]

/-- `"IDAT"` -/
def typeIdat : List UInt8 := [73, 68, 65, 84]

/-- `"IEND"` -/
def typeIend : List UInt8 := [73, 69, 78, 68]

def ihdr (w h : Nat) : List UInt8 := be32 w ++ (be32 h ++ [8, 2, 0, 0, 0])

/-! ## The image data -/

/-- A byte of `adler_scanlines`. -/
def adlerByte (x : Nat) (s : Nat × Nat) : Nat × Nat :=
  ((s.1 + x) % 65521, (s.2 + (s.1 + x) % 65521) % 65521)

def adlerScanlines (rgb : Memory) (w h : Nat) : Nat :=
  let s := (List.range h).foldl (fun s row =>
    (List.range (w * 3)).foldl (fun s c => adlerByte (rgb (row * w * 3 + c)).toNat s) (adlerByte 0 s)) (1, 0)
  s.2 <<< 16 ||| s.1

/-- The output buffer, `outp` and `rp`. -/
structure Enc where
  mem : Memory
  outp : Nat
  rp : Nat

/-- The loop that fills a stored block with rows of the image; a round adds a byte at least. -/
def fillFrom (rgb : Memory) (w idat take : Nat) : Nat → Nat → Enc → Enc
  | 0, _, e => e
  | rounds + 1, filled, e =>
    if filled < take then
      let rowIdx := e.rp / (1 + w * 3)
      let rowOff := e.rp % (1 + w * 3)
      let space := take - filled
      if rowOff = 0 then
        fillFrom rgb w idat take rounds (filled + 1) ⟨store e.mem (idat + e.outp) [0], e.outp + 1, e.rp + 1⟩
      else
        let avail := w * 3 - (rowOff - 1)
        let nbytes := if avail < space then avail else space
        fillFrom rgb w idat take rounds (filled + nbytes)
          ⟨store e.mem (idat + e.outp) (load rgb (rowIdx * (w * 3) + (rowOff - 1)) nbytes), e.outp + nbytes, e.rp + nbytes⟩
    else e

def patchHeader (idat hpos take : Nat) (last : Bool) (mem : Memory) : Memory :=
  let mem := store mem (idat + hpos) [if last then 1 else 0]
  let mem := store mem (idat + hpos + 1) (be16 take)
  store mem (idat + hpos + 3) (be16 ((2 ^ 32 - 1 - take) % 2 ^ 16))

def emitBlocks (rgb : Memory) (w idat rawLen : Nat) : Nat → Enc → Enc
  | 0, e => e
  | rounds + 1, e =>
    if e.rp < rawLen then
      let take := if rawLen - e.rp > 65535 then 65535 else rawLen - e.rp
      let hpos := e.outp
      let e := fillFrom rgb w idat take take 0 { e with outp := e.outp + 5 }
      emitBlocks rgb w idat rawLen rounds { e with mem := patchHeader idat hpos take (e.rp == rawLen) e.mem }
    else e

def rawLen (w h : Nat) : Nat := h * (1 + w * 3) % 2 ^ 32

def idatCap (w h : Nat) : Nat := (2 + rawLen w h + (rawLen w h / 65535 + 1) * 5 + 4) % 2 ^ 32

/-- The payload that `png_encode_rgb` builds at `idat`, and its length. -/
def buildIdat (rgb : Memory) (w h idat : Nat) (mem : Memory) : Memory × Nat :=
  let e := emitBlocks rgb w idat (rawLen w h) (rawLen w h) ⟨store mem idat [0x78, 0x01], 2, 0⟩
  (store e.mem (idat + e.outp) (be32 (adlerScanlines rgb w h)), e.outp + 4)

/-- `png_encode_rgb`, with buffers: the result, and the output buffer. -/
def pngEncodeRgb (out : Memory) (outCap : UInt32) (rgb : Memory) (w h : UInt32) : Nat × Memory :=
  if w = 0 ∨ h = 0 then (0, out)
  else if (8 + 12 + 13 + idatCap w.toNat h.toNat + 12) % 2 ^ 32 > outCap.toNat then (0, out)
  else
    let out := store out 0 signature
    let (pos, out) := pngPutChunk 8 outCap.toNat typeIhdr (.bytes (ihdr w.toNat h.toNat)) out
    if pos = 0 then (0, out)
    else
      let (out, outp) := buildIdat rgb w.toNat h.toNat pos out
      let (pos, out) := pngPutChunk pos outCap.toNat typeIdat (.inBuffer pos outp) out
      if pos = 0 then (0, out) else pngPutChunk pos outCap.toNat typeIend (.bytes []) out

end Monios.Model.Png
