import Monios.Library.Block

/-!
# Hashes

`lib/hash.c`: MD5, SHA-1 and SHA-256 with a context that messages are put into piece by piece, and
the keyed hashes made from them.  The three contexts are handled alike, so `init`, `update` and
`final` are written once, for a `transform` of a block and the order of the bytes of the length.
-/

set_option autoImplicit false

namespace Monios.Model.Hash

open Monios.Library

/-! ## Words -/

def sha256Rotr (value count : UInt32) : UInt32 := (value >>> count) ||| (value <<< (32 - count))

/-- `md5_left_rotate` and `sha1_left_rotate` -/
def leftRotate (x n : UInt32) : UInt32 := (x <<< n) ||| (x >>> (32 - n))

def blockWordBE (block : Block 64) (i : Nat) : UInt32 :=
  ((block.byte (i * 4)).toUInt32 <<< 24) ||| ((block.byte (i * 4 + 1)).toUInt32 <<< 16) |||
    ((block.byte (i * 4 + 2)).toUInt32 <<< 8) ||| (block.byte (i * 4 + 3)).toUInt32

def blockWordLE (block : Block 64) (i : Nat) : UInt32 :=
  (block.byte (i * 4)).toUInt32 ||| ((block.byte (i * 4 + 1)).toUInt32 <<< 8) |||
    ((block.byte (i * 4 + 2)).toUInt32 <<< 16) ||| ((block.byte (i * 4 + 3)).toUInt32 <<< 24)

def wordBytesBE (w : UInt32) : List UInt8 :=
  [(w >>> 24).toUInt8, (w >>> 16).toUInt8, (w >>> 8).toUInt8, w.toUInt8]

def wordBytesLE (w : UInt32) : List UInt8 :=
  [(w &&& 0xFF).toUInt8, ((w >>> 8) &&& 0xFF).toUInt8, ((w >>> 16) &&& 0xFF).toUInt8, ((w >>> 24) &&& 0xFF).toUInt8]

def bitCountBE (bitCount : UInt64) : List UInt8 :=
  (List.range 8).reverse.map fun i => (bitCount >>> UInt64.ofNat (i * 8)).toUInt8

def bitCountLE (bitCount : UInt64) : List UInt8 :=
  (List.range 8).map fun i => (bitCount >>> UInt64.ofNat (i * 8)).toUInt8

/-! ## Contexts -/

/-- `md5_ctx_t`, `sha1_ctx_t` and `sha256_ctx_t` -/
structure HashCtx (σ : Type) where
  state : σ
  count : UInt64
  buffer : Block 64

section

variable {σ : Type}

/-- `md5_init`, `sha1_init` and `sha256_init` -/
def hashInit (iv : σ) : HashCtx σ := { state := iv, count := 0, buffer := Block.zero }

/-- The loop of `md5_update`, `sha1_update` and `sha256_update`; every round takes at least one
byte. -/
def hashUpdateLoop (transform : σ → Block 64 → σ) :
    Nat → σ → Block 64 → Nat → List UInt8 → σ × Block 64
  | 0, state, buffer, _, _ => (state, buffer)
  | rounds + 1, state, buffer, bufferLen, data =>
    if data.length > 0 then
      let copyLen := 64 - bufferLen
      let copyLen := if copyLen > data.length then data.length else copyLen
      let buffer := buffer.patch bufferLen (data.take copyLen)
      let bufferLen := bufferLen + copyLen
      if bufferLen = 64 then hashUpdateLoop transform rounds (transform state buffer) buffer 0 (data.drop copyLen)
      else hashUpdateLoop transform rounds state buffer bufferLen (data.drop copyLen)
    else (state, buffer)

/-- `md5_update`, `sha1_update` and `sha256_update` -/
def hashUpdate (transform : σ → Block 64 → σ) (ctx : HashCtx σ) (data : List UInt8) : HashCtx σ :=
  let (state, buffer) := hashUpdateLoop transform data.length ctx.state ctx.buffer (ctx.count.toNat % 64) data
  { state := state, count := ctx.count + UInt64.ofNat data.length, buffer := buffer }

/-- `while (buffer_len < limit) ctx->buffer[buffer_len++] = 0`, where `n` bytes are missing. -/
def hashFill : Nat → Block 64 → Nat → Block 64
  | 0, buffer, _ => buffer
  | n + 1, buffer, bufferLen => hashFill n (buffer.patch bufferLen [0]) (bufferLen + 1)

/-- The part of `md5_final`, `sha1_final` and `sha256_final` that makes the last state. -/
def hashFinal (transform : σ → Block 64 → σ) (lengthBytes : UInt64 → List UInt8)
    (ctx : HashCtx σ) : σ :=
  let bitCount := ctx.count * 8
  let bufferLen := ctx.count.toNat % 64
  let buffer := ctx.buffer.patch bufferLen [0x80]
  let bufferLen := bufferLen + 1
  let (state, buffer, bufferLen) :=
    if bufferLen > 56 then
      let buffer := hashFill (64 - bufferLen) buffer bufferLen
      (transform ctx.state buffer, buffer, 0)
    else (ctx.state, buffer, bufferLen)
  let buffer := hashFill (56 - bufferLen) buffer bufferLen
  transform state (buffer.patch 56 (lengthBytes bitCount))

end

/-! ## MD5 -/

def md5S : List UInt32 :=
  [ 7, 12, 17, 22, 7, 12, 17, 22, 7, 12, 17, 22, 7, 12, 17, 22, 5, 9, 14, 20, 5, 9, 14, 20, 5, 9, 14, 20, 5, 9, 14, 20,
    4, 11, 16, 23, 4, 11, 16, 23, 4, 11, 16, 23, 4, 11, 16, 23,
    6, 10, 15, 21, 6, 10, 15, 21, 6, 10, 15, 21, 6, 10, 15, 21 ]

def md5K : List UInt32 :=
  [ 0xd76aa478, 0xe8c7b756, 0x242070db, 0xc1bdceee, 0xf57c0faf, 0x4787c62a, 0xa8304613, 0xfd469501,
    0x698098d8, 0x8b44f7af, 0xffff5bb1, 0x895cd7be, 0x6b901122, 0xfd987193, 0xa679438e, 0x49b40821,
    0xf61e2562, 0xc040b340, 0x265e5a51, 0xe9b6c7aa, 0xd62f105d, 0x02441453, 0xd8a1e681, 0xe7d3fbc8,
    0x21e1cde6, 0xc33707d6, 0xf4d50d87, 0x455a14ed, 0xa9e3e905, 0xfcefa3f8, 0x676f02d9, 0x8d2a4c8a,
    0xfffa3942, 0x8771f681, 0x6d9d6122, 0xfde5380c, 0xa4beea44, 0x4bdecfa9, 0xf6bb4b60, 0xbebfbc70,
    0x289b7ec6, 0xeaa127fa, 0xd4ef3085, 0x04881d05, 0xd9d4d039, 0xe6db99e5, 0x1fa27cf8, 0xc4ac5665,
    0xf4292244, 0x432aff97, 0xab9423a7, 0xfc93a039, 0x655b59c3, 0x8f0ccc92, 0xffeff47d, 0x85845dd1,
    0x6fa87e4f, 0xfe2ce6e0, 0xa3014314, 0x4e0811a1, 0xf7537e82, 0xbd3af235, 0x2ad7d2bb, 0xeb86d391 ]

structure Md5State where
  a : UInt32
  b : UInt32
  c : UInt32
  d : UInt32
  deriving DecidableEq

/-- A round of `md5_transform`. -/
def md5Round (block : Block 64) (s : Md5State) (i : Nat) : Md5State :=
  let (f, g) :=
    if i < 16 then ((s.b &&& s.c) ||| (~~~s.b &&& s.d), i)
    else if i < 32 then ((s.d &&& s.b) ||| (~~~s.d &&& s.c), (5 * i + 1) % 16)
    else if i < 48 then (s.b ^^^ s.c ^^^ s.d, (3 * i + 5) % 16)
    else (s.c ^^^ (s.b ||| ~~~s.d), (7 * i) % 16)
  { a := s.d
    b := s.b + leftRotate (s.a + f + md5K.getD i 0 + blockWordLE block g) (md5S.getD i 0)
    c := s.b
    d := s.c }

def md5Transform (s : Md5State) (block : Block 64) : Md5State :=
  let r := (List.range 64).foldl (md5Round block) s
  { a := s.a + r.a, b := s.b + r.b, c := s.c + r.c, d := s.d + r.d }

def md5Init : HashCtx Md5State :=
  hashInit { a := 0x67452301, b := 0xefcdab89, c := 0x98badcfe, d := 0x10325476 }

def md5Update : HashCtx Md5State → List UInt8 → HashCtx Md5State := hashUpdate md5Transform

def md5Final (ctx : HashCtx Md5State) : List UInt8 :=
  let s := hashFinal md5Transform bitCountLE ctx
  [s.a, s.b, s.c, s.d].flatMap wordBytesLE

def md5 (data : List UInt8) : List UInt8 := md5Final (md5Update md5Init data)

/-! ## SHA-1 -/

structure Sha1State where
  a : UInt32
  b : UInt32
  c : UInt32
  d : UInt32
  e : UInt32
  deriving DecidableEq

/-- The words of `sha1_transform`. -/
def sha1Words (block : Block 64) : List UInt32 :=
  (List.range' 16 64).foldl
    (fun w i =>
      w ++ [leftRotate (w.getD (i - 3) 0 ^^^ w.getD (i - 8) 0 ^^^ w.getD (i - 14) 0 ^^^ w.getD (i - 16) 0) 1])
    ((List.range 16).map (blockWordBE block))

/-- A round of `sha1_transform`. -/
def sha1Round (w : List UInt32) (s : Sha1State) (i : Nat) : Sha1State :=
  let (f, k) : UInt32 × UInt32 :=
    if i < 20 then ((s.b &&& s.c) ||| (~~~s.b &&& s.d), 0x5A827999)
    else if i < 40 then (s.b ^^^ s.c ^^^ s.d, 0x6ED9EBA1)
    else if i < 60 then ((s.b &&& s.c) ||| (s.b &&& s.d) ||| (s.c &&& s.d), 0x8F1BBCDC)
    else (s.b ^^^ s.c ^^^ s.d, 0xCA62C1D6)
  { a := leftRotate s.a 5 + f + s.e + k + w.getD i 0
    b := s.a
    c := leftRotate s.b 30
    d := s.c
    e := s.d }

def sha1Transform (s : Sha1State) (block : Block 64) : Sha1State :=
  let r := (List.range 80).foldl (sha1Round (sha1Words block)) s
  { a := s.a + r.a, b := s.b + r.b, c := s.c + r.c, d := s.d + r.d, e := s.e + r.e }

def sha1Init : HashCtx Sha1State :=
  hashInit { a := 0x67452301, b := 0xEFCDAB89, c := 0x98BADCFE, d := 0x10325476, e := 0xC3D2E1F0 }

def sha1Update : HashCtx Sha1State → List UInt8 → HashCtx Sha1State := hashUpdate sha1Transform

def sha1Final (ctx : HashCtx Sha1State) : List UInt8 :=
  let s := hashFinal sha1Transform bitCountBE ctx
  [s.a, s.b, s.c, s.d, s.e].flatMap wordBytesBE

def sha1 (data : List UInt8) : List UInt8 := sha1Final (sha1Update sha1Init data)

/-! ## SHA-256 -/

def sha256Constants : List UInt32 :=
  [ 0x428A2F98, 0x71374491, 0xB5C0FBCF, 0xE9B5DBA5, 0x3956C25B, 0x59F111F1, 0x923F82A4, 0xAB1C5ED5,
    0xD807AA98, 0x12835B01, 0x243185BE, 0x550C7DC3, 0x72BE5D74, 0x80DEB1FE, 0x9BDC06A7, 0xC19BF174,
    0xE49B69C1, 0xEFBE4786, 0x0FC19DC6, 0x240CA1CC, 0x2DE92C6F, 0x4A7484AA, 0x5CB0A9DC, 0x76F988DA,
    0x983E5152, 0xA831C66D, 0xB00327C8, 0xBF597FC7, 0xC6E00BF3, 0xD5A79147, 0x06CA6351, 0x14292967,
    0x27B70A85, 0x2E1B2138, 0x4D2C6DFC, 0x53380D13, 0x650A7354, 0x766A0ABB, 0x81C2C92E, 0x92722C85,
    0xA2BFE8A1, 0xA81A664B, 0xC24B8B70, 0xC76C51A3, 0xD192E819, 0xD6990624, 0xF40E3585, 0x106AA070,
    0x19A4C116, 0x1E376C08, 0x2748774C, 0x34B0BCB5, 0x391C0CB3, 0x4ED8AA4A, 0x5B9CCA4F, 0x682E6FF3,
    0x748F82EE, 0x78A5636F, 0x84C87814, 0x8CC70208, 0x90BEFFFA, 0xA4506CEB, 0xBEF9A3F7, 0xC67178F2 ]

structure Sha256State where
  a : UInt32
  b : UInt32
  c : UInt32
  d : UInt32
  e : UInt32
  f : UInt32
  g : UInt32
  h : UInt32
  deriving DecidableEq

def sha256Choose (x y z : UInt32) : UInt32 := (x &&& y) ^^^ (~~~x &&& z)

def sha256Majority (x y z : UInt32) : UInt32 := (x &&& y) ^^^ (x &&& z) ^^^ (y &&& z)

def sha256UpperSigma0 (x : UInt32) : UInt32 :=
  sha256Rotr x 2 ^^^ sha256Rotr x 13 ^^^ sha256Rotr x 22

def sha256UpperSigma1 (x : UInt32) : UInt32 :=
  sha256Rotr x 6 ^^^ sha256Rotr x 11 ^^^ sha256Rotr x 25

def sha256LowerSigma0 (x : UInt32) : UInt32 := sha256Rotr x 7 ^^^ sha256Rotr x 18 ^^^ (x >>> 3)

def sha256LowerSigma1 (x : UInt32) : UInt32 := sha256Rotr x 17 ^^^ sha256Rotr x 19 ^^^ (x >>> 10)

/-- The words of `sha256_transform`. -/
def sha256Words (block : Block 64) : List UInt32 :=
  (List.range' 16 48).foldl
    (fun w i =>
      w ++ [sha256LowerSigma1 (w.getD (i - 2) 0) + w.getD (i - 7) 0 + sha256LowerSigma0 (w.getD (i - 15) 0) +
        w.getD (i - 16) 0])
    ((List.range 16).map (blockWordBE block))

/-- A round of `sha256_transform`. -/
def sha256Round (w : List UInt32) (s : Sha256State) (i : Nat) : Sha256State :=
  let t1 := s.h + sha256UpperSigma1 s.e + sha256Choose s.e s.f s.g + sha256Constants.getD i 0 + w.getD i 0
  let t2 := sha256UpperSigma0 s.a + sha256Majority s.a s.b s.c
  { a := t1 + t2, b := s.a, c := s.b, d := s.c, e := s.d + t1, f := s.e, g := s.f, h := s.g }

def sha256Transform (s : Sha256State) (block : Block 64) : Sha256State :=
  let r := (List.range 64).foldl (sha256Round (sha256Words block)) s
  { a := s.a + r.a, b := s.b + r.b, c := s.c + r.c, d := s.d + r.d, e := s.e + r.e, f := s.f + r.f, g := s.g + r.g,
    h := s.h + r.h }

def sha256Init : HashCtx Sha256State :=
  hashInit { a := 0x6A09E667, b := 0xBB67AE85, c := 0x3C6EF372, d := 0xA54FF53A, e := 0x510E527F, f := 0x9B05688C,
             g := 0x1F83D9AB, h := 0x5BE0CD19 }

def sha256Update : HashCtx Sha256State → List UInt8 → HashCtx Sha256State :=
  hashUpdate sha256Transform

def sha256Final (ctx : HashCtx Sha256State) : List UInt8 :=
  let s := hashFinal sha256Transform bitCountBE ctx
  [s.a, s.b, s.c, s.d, s.e, s.f, s.g, s.h].flatMap wordBytesBE

def sha256 (data : List UInt8) : List UInt8 := sha256Final (sha256Update sha256Init data)

/-! ## Keyed hashes -/

/-- `k_ipad[i] ^= key[i]` for every byte of the key. -/
def xorKey : List UInt8 → List UInt8 → List UInt8
  | p :: pad, k :: key => (p ^^^ k) :: xorKey pad key
  | pad, _ => pad

/-- `hmac_md5`, `hmac_sha1` and `hmac_sha256` -/
def hmacWith {σ : Type} (init : HashCtx σ) (update : HashCtx σ → List UInt8 → HashCtx σ)
    (final : HashCtx σ → List UInt8) (oneShot : List UInt8 → List UInt8) (key data : List UInt8) :
    List UInt8 :=
  let key := if key.length > 64 then oneShot key else key
  let kIpad := xorKey (List.replicate 64 0x36) key
  let kOpad := xorKey (List.replicate 64 0x5C) key
  let digest := final (update (update init kIpad) data)
  final (update (update init kOpad) digest)

def hmacMd5 : List UInt8 → List UInt8 → List UInt8 := hmacWith md5Init md5Update md5Final md5

def hmacSha1 : List UInt8 → List UInt8 → List UInt8 := hmacWith sha1Init sha1Update sha1Final sha1

def hmacSha256 : List UInt8 → List UInt8 → List UInt8 :=
  hmacWith sha256Init sha256Update sha256Final sha256

end Monios.Model.Hash
