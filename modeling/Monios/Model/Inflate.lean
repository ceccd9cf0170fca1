import Monios.Library.Bytes
import Monios.Model.Zcomp

/-!
# CRC-32

`lib/crc32.c`.  The table is built on the first use in the source; here it is a constant.
-/

set_option autoImplicit false

namespace Monios.Model.Crc32

/-- The inner loop of `crc32_build_table`. -/
def crcEntry : Nat → UInt32 → UInt32
  | 0, c => c
  | n + 1, c => crcEntry n (if c &&& 1 ≠ 0 then (0xEDB88320 : UInt32) ^^^ (c >>> 1) else c >>> 1)

/-- `g_crc_table`, as `crc32_build_table` fills it in. -/
def crcTable : List UInt32 := (List.range 256).map fun i => crcEntry 8 (UInt32.ofNat i)

def crc32Init : UInt32 := 0xFFFFFFFF

def crc32Update (crc : UInt32) (bytes : List UInt8) : UInt32 :=
  bytes.foldl (fun crc b => crcTable.getD ((crc ^^^ b.toUInt32) &&& 0xFF).toNat 0 ^^^ (crc >>> 8)) crc

def crc32Final (crc : UInt32) : UInt32 := crc ^^^ 0xFFFFFFFF

def crc32Buf (bytes : List UInt8) : UInt32 := crc32Final (crc32Update crc32Init bytes)

end Monios.Model.Crc32

/-!
# Inflate

The decoder for DEFLATE streams of `lib/zip.c`: the bit reader, the code tables, the lengths of a
dynamic block, the loop over the symbols of a block and the loop over the blocks, and
`zlib_inflate`.

Loops without a bound in the source have one here.  A round of `decode_block_stream` writes a byte
at least or returns, so that there are no more rounds than there is capacity; a round of
`inflate_raw` takes three bits or returns.
-/

namespace Monios.Model.Inflate

open Monios.Library Monios.Model.Zcomp

/-! ## The bit reader -/

/-- `br_t` -/
structure Br where
  buf : List UInt8
  pos : Nat := 0
  bb : Nat := 0
  bl : Nat := 0
  err : Bool := false

/-- The loop of `br_read`: whether there were enough bytes. -/
def brFill (want : Nat) : Nat → Br → Bool × Br
  | 0, br => (true, br)
  | rounds + 1, br =>
    if br.bl < want then
      if br.pos ≥ br.buf.length then (false, { br with err := true })
      else
        brFill want rounds
          { br with
            bb := (br.bb ||| byteAt br.buf br.pos <<< br.bl) % 2 ^ 32
            pos := br.pos + 1
            bl := br.bl + 8 }
    else (true, br)

def brRead (n : Nat) (br : Br) : Nat × Br :=
  let (ok, br) := brFill n n br
  if ok then (br.bb % 2 ^ n, { br with bb := br.bb >>> n, bl := br.bl - n }) else (0, br)

def brAlign (br : Br) : Br := { br with bb := 0, bl := 0 }

/-! ## Code tables -/

/-- `huff_t` -/
structure Huff where
  count : List Nat
  sym : List Nat

/-- The first loop of `huff_build`, and `h->count[0] = 0`. -/
def countLengths (lengths : List Nat) : List Nat :=
  (lengths.foldl (fun count len => count.set len (count.getD len 0 + 1)) (List.replicate 16 0)).set 0 0

/-- The offset that `huff_build` computes for a length: `off[1] = 0`, and `off[len + 1] = off[len] +
h->count[len]`. -/
def offset (count : List Nat) : Nat → Nat
  | 0 => 0
  | 1 => 0
  | len + 2 => offset count (len + 1) + count.getD (len + 1) 0

/-- The last loop of `huff_build`: the offsets, and the symbols; `i` symbols are done. -/
def placeSymbols : List Nat → Nat → List Nat × List Nat → List Nat × List Nat
  | [], _, state => state
  | len :: lengths, i, (off, sym) =>
    if len ≠ 0 then placeSymbols lengths (i + 1) (off.set len (off.getD len 0 + 1), sym.set (off.getD len 0) i)
    else placeSymbols lengths (i + 1) (off, sym)

def huffBuild (lengths : List Nat) : Huff :=
  let count := countLengths lengths
  ⟨count, (placeSymbols lengths 0 ((List.range 16).map (offset count), List.replicate 288 0)).2⟩

/-- The loop of `huff_decode` from the length `len` on; `none` is `-1`. -/
def huffFrom (h : Huff) : Nat → Nat → Nat → Nat → Nat → Br → Option Nat × Br
  | 0, _, _, _, _, br => (none, { br with err := true })
  | rounds + 1, len, code, first, index, br =>
    let (bit, br) := brRead 1 br
    let code := code <<< 1 ||| bit
    let cnt := h.count.getD len 0
    -- the difference is unsigned: where `code` is less than `first` it is larger than any number of
    -- symbols
    if first ≤ code ∧ code - first < cnt then (some (h.sym.getD (index + (code - first)) 0), br)
    else huffFrom h rounds (len + 1) code ((first + cnt) <<< 1) (index + cnt) br

def huffDecode (h : Huff) (br : Br) : Option Nat × Br := huffFrom h 15 1 0 0 0 br

def fixedLitlenLengths : List Nat :=
  (List.range 288).map fun i => if i < 144 then 8 else if i < 256 then 9 else if i < 280 then 7 else 8

def lenBase : List Nat :=
  [3, 4, 5, 6, 7, 8, 9, 10, 11, 13, 15, 17, 19, 23, 27, 31, 35, 43, 51, 59, 67, 83, 99, 115, 131, 163, 195, 227, 258]

def lenExtra : List Nat := [0, 0, 0, 0, 0, 0, 0, 0, 1, 1, 1, 1, 2, 2, 2, 2, 3, 3, 3, 3, 4, 4, 4, 4, 5, 5, 5, 5, 0]

def distBase : List Nat :=
  [1, 2, 3, 4, 5, 7, 9, 13, 17, 25, 33, 49, 65, 97, 129, 193, 257, 385, 513, 769, 1025, 1537, 2049, 3073, 4097, 6145, 8193,
    12289, 16385, 24577]

def distExtra : List Nat :=
  [0, 0, 0, 0, 1, 1, 2, 2, 3, 3, 4, 4, 5, 5, 6, 6, 7, 7, 8, 8, 9, 9, 10, 10, 11, 11, 12, 12, 13, 13]

/-! ## The lengths of a dynamic block -/

def clOrder : List Nat := [16, 17, 18, 0, 8, 7, 9, 6, 10, 5, 11, 4, 12, 3, 13, 2, 14, 1, 15]

/-- The loop that reads the lengths of the code for lengths; `i` of them are read. -/
def readClLens : Nat → Nat → List Nat → Br → List Nat × Br
  | 0, _, clLen, br => (clLen, br)
  | n + 1, i, clLen, br =>
    let (len, br) := brRead 3 br
    readClLens n (i + 1) (clLen.set (clOrder.getD i 0) len) br

/-- The lengths that a symbol adds, and the new `prev`. -/
def addLengths (sym prev : Nat) (br : Br) : List Nat × Nat × Br :=
  if sym < 16 then ([sym], sym, br)
  else if sym = 16 then
    let (extra, br) := brRead 2 br
    (List.replicate (3 + extra) prev, prev, br)
  else if sym = 17 then
    let (extra, br) := brRead 3 br
    (List.replicate (3 + extra) 0, 0, br)
  else
    let (extra, br) := brRead 7 br
    (List.replicate (11 + extra) 0, 0, br)

/-- The loop of `read_dynamic_lengths`; `out` are the lengths so far, and a round adds one at least.
-/
def readLengthsFrom (h : Huff) (total : Nat) : Nat → List Nat → Nat → Br → Option (List Nat) × Br
  | 0, out, _, br => (some out, br)
  | rounds + 1, out, prev, br =>
    if out.length < total then
      match huffDecode h br with
      | (none, br) => (none, br)
      | (some sym, br) =>
        let (more, prev, br) := addLengths sym prev br
        readLengthsFrom h total rounds (out ++ more.take (total - out.length)) prev br
    else (some out, br)

/-- `read_dynamic_lengths`; `none` is `-1`. -/
def readDynamicLengths (total : Nat) (br : Br) : Option (List Nat) × Br :=
  let (hclen, br) := brRead 4 br
  let (clLen, br) := readClLens (hclen + 4) 0 (List.replicate 19 0) br
  readLengthsFrom (huffBuild clLen) total total [] 0 br

/-! ## Blocks -/

/-- The loop that copies a match, byte by byte; an error is `return -1`. -/
def copyLoop (distance cap : Nat) : Nat → Out → Except Zcomp.Memory Out
  | 0, out => .ok out
  | length + 1, out =>
    if out.o ≥ cap then .error out.dst else copyLoop distance cap length (out.put (out.dst (out.o - distance)))

/-- What `decode_block_stream` does with a length symbol. -/
def decodeMatch (dist : Huff) (cap sym : Nat) (br : Br) (out : Out) :
    Except Zcomp.Memory (Br × Out) :=
  let s := sym - 257
  if s ≥ 29 then .error out.dst
  else
    let (extra, br) := brRead (lenExtra.getD s 0) br
    let length := lenBase.getD s 0 + extra
    match huffDecode dist br with
    | (none, _) => .error out.dst
    | (some dsym, br) =>
      if dsym ≥ 30 then .error out.dst
      else
        let (extra, br) := brRead (distExtra.getD dsym 0) br
        let distance := distBase.getD dsym 0 + extra
        if distance > out.o then .error out.dst
        else
          match copyLoop distance cap length out with
          | .error dst => .error dst
          | .ok out => .ok (br, out)

/-- What `decode_block_stream` does with a symbol other than 256. -/
def decodeSymbol (dist : Huff) (cap sym : Nat) (br : Br) (out : Out) :
    Except Zcomp.Memory (Br × Out) :=
  if sym < 256 then if out.o ≥ cap then .error out.dst else .ok (br, out.put (UInt8.ofNat sym))
  else decodeMatch dist cap sym br out

/-- The loop of `decode_block_stream`; an error is `return -1`. -/
def decodeLoop (lit dist : Huff) (cap : Nat) : Nat → Br → Out → Except Zcomp.Memory (Br × Out)
  | 0, _, out => .error out.dst
  | rounds + 1, br, out =>
    match huffDecode lit br with
    | (none, _) => .error out.dst
    | (some sym, br) =>
      if sym = 256 then .ok (br, out)
      else (decodeSymbol dist cap sym br out).bind fun next => decodeLoop lit dist cap rounds next.1 next.2

def decodeBlockStream (lit dist : Huff) (cap : Nat) (br : Br) (out : Out) :
    Except Zcomp.Memory (Br × Out) :=
  decodeLoop lit dist cap (cap + 1) br out

def storedBlock (cap : Nat) (br : Br) (out : Out) : Except Zcomp.Memory (Br × Out) :=
  let br := brAlign br
  if (br.pos + 4) % 2 ^ 32 > br.buf.length then .error out.dst
  else
    let len := readU16 br.buf br.pos
    let nlen := readU16 br.buf (br.pos + 2)
    let br := { br with pos := (br.pos + 4) % 2 ^ 32 }
    if len + nlen ≠ 0xFFFF then .error out.dst
    else if (br.pos + len) % 2 ^ 32 > br.buf.length then .error out.dst
    else if len > (cap + 2 ^ 32 - out.o) % 2 ^ 32 then .error out.dst
    else .ok ({ br with pos := (br.pos + len) % 2 ^ 32 }, out.copyIn (slice br.buf br.pos len))

def fixedBlock (cap : Nat) (br : Br) (out : Out) : Except Zcomp.Memory (Br × Out) :=
  decodeBlockStream (huffBuild fixedLitlenLengths) (huffBuild (List.replicate 30 5)) cap br out

def dynamicBlock (cap : Nat) (br : Br) (out : Out) : Except Zcomp.Memory (Br × Out) :=
  let (hlit, br) := brRead 5 br
  let (hdist, br) := brRead 5 br
  let hlit := hlit + 257
  let hdist := hdist + 1
  if hlit + hdist > 288 + 32 then .error out.dst
  else
    match readDynamicLengths (hlit + hdist) br with
    | (none, _) => .error out.dst
    | (some lengths, br) =>
      decodeBlockStream (huffBuild (lengths.take hlit)) (huffBuild ((lengths.drop hlit).take hdist)) cap br out

/-- A block of the type `btype`. -/
def inflateBlock (btype cap : Nat) (br : Br) (out : Out) : Except Zcomp.Memory (Br × Out) :=
  match btype with
  | 0 => storedBlock cap br out
  | 1 => fixedBlock cap br out
  | 2 => dynamicBlock cap br out
  | _ => .error out.dst

/-- The loop of `inflate_raw`, and the check of `br.err` behind it. -/
def inflateFrom (cap : Nat) : Nat → Br → Out → Except Zcomp.Memory Out
  | 0, _, out => .error out.dst
  | rounds + 1, br, out =>
    let (bfinal, br) := brRead 1 br
    let (btype, br) := brRead 2 br
    match inflateBlock btype cap br out with
    | .error dst => .error dst
    | .ok (br, out) =>
      if bfinal ≠ 0 then if br.err then .error out.dst else .ok out else inflateFrom cap rounds br out

/-- `(int) op` -/
def toInt (op : Nat) : Int := Int.bmod op (2 ^ 32)

/-- `inflate_raw`: the result, and the memory at `out`. -/
def inflateRaw (src : Buffer) (out : Zcomp.Memory) (outcap : UInt32) : Int × Zcomp.Memory :=
  match inflateFrom outcap.toNat (8 * src.val.length + 1) ⟨src.val, 0, 0, 0, false⟩ ⟨0, out⟩ with
  | .error dst => (-1, dst)
  | .ok out => (toInt out.o, out.dst)

/-- `zlib_inflate`, with a buffer. -/
def zlibInflate (src : Buffer) (out : Zcomp.Memory) (outcap : UInt32) : Int × Zcomp.Memory :=
  if src.val.length < 6 then (-1, out)
  else
    inflateRaw ⟨slice src.val 2 (src.val.length - 6),
        Nat.lt_of_le_of_lt (by unfold slice; rw [List.length_take, List.length_drop]; omega) src.property⟩
      out outcap

end Monios.Model.Inflate
