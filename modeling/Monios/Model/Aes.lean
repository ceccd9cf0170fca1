import Monios.Library.Block
import Monios.Library.ByteMemory
import Mathlib.Data.Fin.VecNotation

/-!
# AES

`kernel/net/aes.c`: the key expansion, one block forwards and backwards, and the chaining of blocks
in memory.

A state is the source's `state[4][4]`, row first.  Input and output of the chaining are addresses in
one memory, so that they may be the same.  A call with a null pointer returns -1 and does nothing,
and is left out.
-/

set_option autoImplicit false

namespace Monios.Model

open Monios.Library

/-- `state[4][4]` -/
abbrev AesState := Fin 4 → Fin 4 → UInt8

abbrev AesMemory := Nat → UInt8

def aesSbox : List UInt8 := [
  0x63, 0x7C, 0x77, 0x7B, 0xF2, 0x6B, 0x6F, 0xC5, 0x30, 0x01, 0x67, 0x2B, 0xFE, 0xD7, 0xAB, 0x76,
  0xCA, 0x82, 0xC9, 0x7D, 0xFA, 0x59, 0x47, 0xF0, 0xAD, 0xD4, 0xA2, 0xAF, 0x9C, 0xA4, 0x72, 0xC0,
  0xB7, 0xFD, 0x93, 0x26, 0x36, 0x3F, 0xF7, 0xCC, 0x34, 0xA5, 0xE5, 0xF1, 0x71, 0xD8, 0x31, 0x15,
  0x04, 0xC7, 0x23, 0xC3, 0x18, 0x96, 0x05, 0x9A, 0x07, 0x12, 0x80, 0xE2, 0xEB, 0x27, 0xB2, 0x75,
  0x09, 0x83, 0x2C, 0x1A, 0x1B, 0x6E, 0x5A, 0xA0, 0x52, 0x3B, 0xD6, 0xB3, 0x29, 0xE3, 0x2F, 0x84,
  0x53, 0xD1, 0x00, 0xED, 0x20, 0xFC, 0xB1, 0x5B, 0x6A, 0xCB, 0xBE, 0x39, 0x4A, 0x4C, 0x58, 0xCF,
  0xD0, 0xEF, 0xAA, 0xFB, 0x43, 0x4D, 0x33, 0x85, 0x45, 0xF9, 0x02, 0x7F, 0x50, 0x3C, 0x9F, 0xA8,
  0x51, 0xA3, 0x40, 0x8F, 0x92, 0x9D, 0x38, 0xF5, 0xBC, 0xB6, 0xDA, 0x21, 0x10, 0xFF, 0xF3, 0xD2,
  0xCD, 0x0C, 0x13, 0xEC, 0x5F, 0x97, 0x44, 0x17, 0xC4, 0xA7, 0x7E, 0x3D, 0x64, 0x5D, 0x19, 0x73,
  0x60, 0x81, 0x4F, 0xDC, 0x22, 0x2A, 0x90, 0x88, 0x46, 0xEE, 0xB8, 0x14, 0xDE, 0x5E, 0x0B, 0xDB,
  0xE0, 0x32, 0x3A, 0x0A, 0x49, 0x06, 0x24, 0x5C, 0xC2, 0xD3, 0xAC, 0x62, 0x91, 0x95, 0xE4, 0x79,
  0xE7, 0xC8, 0x37, 0x6D, 0x8D, 0xD5, 0x4E, 0xA9, 0x6C, 0x56, 0xF4, 0xEA, 0x65, 0x7A, 0xAE, 0x08,
  0xBA, 0x78, 0x25, 0x2E, 0x1C, 0xA6, 0xB4, 0xC6, 0xE8, 0xDD, 0x74, 0x1F, 0x4B, 0xBD, 0x8B, 0x8A,
  0x70, 0x3E, 0xB5, 0x66, 0x48, 0x03, 0xF6, 0x0E, 0x61, 0x35, 0x57, 0xB9, 0x86, 0xC1, 0x1D, 0x9E,
  0xE1, 0xF8, 0x98, 0x11, 0x69, 0xD9, 0x8E, 0x94, 0x9B, 0x1E, 0x87, 0xE9, 0xCE, 0x55, 0x28, 0xDF,
  0x8C, 0xA1, 0x89, 0x0D, 0xBF, 0xE6, 0x42, 0x68, 0x41, 0x99, 0x2D, 0x0F, 0xB0, 0x54, 0xBB, 0x16]

def aesInvSbox : List UInt8 := [
  0x52, 0x09, 0x6A, 0xD5, 0x30, 0x36, 0xA5, 0x38, 0xBF, 0x40, 0xA3, 0x9E, 0x81, 0xF3, 0xD7, 0xFB,
  0x7C, 0xE3, 0x39, 0x82, 0x9B, 0x2F, 0xFF, 0x87, 0x34, 0x8E, 0x43, 0x44, 0xC4, 0xDE, 0xE9, 0xCB,
  0x54, 0x7B, 0x94, 0x32, 0xA6, 0xC2, 0x23, 0x3D, 0xEE, 0x4C, 0x95, 0x0B, 0x42, 0xFA, 0xC3, 0x4E,
  0x08, 0x2E, 0xA1, 0x66, 0x28, 0xD9, 0x24, 0xB2, 0x76, 0x5B, 0xA2, 0x49, 0x6D, 0x8B, 0xD1, 0x25,
  0x72, 0xF8, 0xF6, 0x64, 0x86, 0x68, 0x98, 0x16, 0xD4, 0xA4, 0x5C, 0xCC, 0x5D, 0x65, 0xB6, 0x92,
  0x6C, 0x70, 0x48, 0x50, 0xFD, 0xED, 0xB9, 0xDA, 0x5E, 0x15, 0x46, 0x57, 0xA7, 0x8D, 0x9D, 0x84,
  0x90, 0xD8, 0xAB, 0x00, 0x8C, 0xBC, 0xD3, 0x0A, 0xF7, 0xE4, 0x58, 0x05, 0xB8, 0xB3, 0x45, 0x06,
  0xD0, 0x2C, 0x1E, 0x8F, 0xCA, 0x3F, 0x0F, 0x02, 0xC1, 0xAF, 0xBD, 0x03, 0x01, 0x13, 0x8A, 0x6B,
  0x3A, 0x91, 0x11, 0x41, 0x4F, 0x67, 0xDC, 0xEA, 0x97, 0xF2, 0xCF, 0xCE, 0xF0, 0xB4, 0xE6, 0x73,
  0x96, 0xAC, 0x74, 0x22, 0xE7, 0xAD, 0x35, 0x85, 0xE2, 0xF9, 0x37, 0xE8, 0x1C, 0x75, 0xDF, 0x6E,
  0x47, 0xF1, 0x1A, 0x71, 0x1D, 0x29, 0xC5, 0x89, 0x6F, 0xB7, 0x62, 0x0E, 0xAA, 0x18, 0xBE, 0x1B,
  0xFC, 0x56, 0x3E, 0x4B, 0xC6, 0xD2, 0x79, 0x20, 0x9A, 0xDB, 0xC0, 0xFE, 0x78, 0xCD, 0x5A, 0xF4,
  0x1F, 0xDD, 0xA8, 0x33, 0x88, 0x07, 0xC7, 0x31, 0xB1, 0x12, 0x10, 0x59, 0x27, 0x80, 0xEC, 0x5F,
  0x60, 0x51, 0x7F, 0xA9, 0x19, 0xB5, 0x4A, 0x0D, 0x2D, 0xE5, 0x7A, 0x9F, 0x93, 0xC9, 0x9C, 0xEF,
  0xA0, 0xE0, 0x3B, 0x4D, 0xAE, 0x2A, 0xF5, 0xB0, 0xC8, 0xEB, 0xBB, 0x3C, 0x83, 0x53, 0x99, 0x61,
  0x17, 0x2B, 0x04, 0x7E, 0xBA, 0x77, 0xD6, 0x26, 0xE1, 0x69, 0x14, 0x63, 0x55, 0x21, 0x0C, 0x7D]

def aesRcon : List UInt8 := [0x00, 0x01, 0x02, 0x04, 0x08, 0x10, 0x20, 0x40, 0x80, 0x1B, 0x36]

/-! ## The field -/

def aesGfMul2 (x : UInt8) : UInt8 := (x <<< 1) ^^^ (if x &&& 0x80 ≠ 0 then 0x1B else 0x00)

def aesGfMul3 (x : UInt8) : UInt8 := aesGfMul2 x ^^^ x

def aesGfMulE (x : UInt8) : UInt8 :=
  let x2 := aesGfMul2 x
  let x4 := aesGfMul2 x2
  let x8 := aesGfMul2 x4
  x8 ^^^ x4 ^^^ x2

def aesGfMulB (x : UInt8) : UInt8 :=
  let x2 := aesGfMul2 x
  let x4 := aesGfMul2 x2
  let x8 := aesGfMul2 x4
  x8 ^^^ x2 ^^^ x

def aesGfMulD (x : UInt8) : UInt8 :=
  let x2 := aesGfMul2 x
  let x4 := aesGfMul2 x2
  let x8 := aesGfMul2 x4
  x8 ^^^ x4 ^^^ x

def aesGfMul9 (x : UInt8) : UInt8 :=
  let x2 := aesGfMul2 x
  let x4 := aesGfMul2 x2
  let x8 := aesGfMul2 x4
  x8 ^^^ x

/-! ## Steps of a round -/

def aesSubBytes (state : AesState) : AesState := fun i j => aesSbox.getD (state i j).toNat 0

def aesInvSubBytes (state : AesState) : AesState := fun i j => aesInvSbox.getD (state i j).toNat 0

theorem neZero_four : NeZero 4 := ⟨by decide⟩

attribute [local instance] neZero_four

def aesShiftRows (s : AesState) : AesState :=
  ![![s 0 0, s 0 1, s 0 2, s 0 3], ![s 1 1, s 1 2, s 1 3, s 1 0], ![s 2 2, s 2 3, s 2 0, s 2 1],
    ![s 3 3, s 3 0, s 3 1, s 3 2]]

def aesInvShiftRows (s : AesState) : AesState :=
  ![![s 0 0, s 0 1, s 0 2, s 0 3], ![s 1 3, s 1 0, s 1 1, s 1 2], ![s 2 2, s 2 3, s 2 0, s 2 1],
    ![s 3 1, s 3 2, s 3 3, s 3 0]]

def aesMixColumns (state : AesState) : AesState := fun j i =>
  let s0 := state 0 i
  let s1 := state 1 i
  let s2 := state 2 i
  let s3 := state 3 i
  (![aesGfMul2 s0 ^^^ aesGfMul3 s1 ^^^ s2 ^^^ s3, s0 ^^^ aesGfMul2 s1 ^^^ aesGfMul3 s2 ^^^ s3,
    s0 ^^^ s1 ^^^ aesGfMul2 s2 ^^^ aesGfMul3 s3,
    aesGfMul3 s0 ^^^ s1 ^^^ s2 ^^^ aesGfMul2 s3] : Fin 4 → UInt8) j

def aesInvMixColumns (state : AesState) : AesState := fun j i =>
  let s0 := state 0 i
  let s1 := state 1 i
  let s2 := state 2 i
  let s3 := state 3 i
  (![aesGfMulE s0 ^^^ aesGfMulB s1 ^^^ aesGfMulD s2 ^^^ aesGfMul9 s3,
    aesGfMul9 s0 ^^^ aesGfMulE s1 ^^^ aesGfMulB s2 ^^^ aesGfMulD s3,
    aesGfMulD s0 ^^^ aesGfMul9 s1 ^^^ aesGfMulE s2 ^^^ aesGfMulB s3,
    aesGfMulB s0 ^^^ aesGfMulD s1 ^^^ aesGfMul9 s2 ^^^ aesGfMulE s3] : Fin 4 → UInt8) j

/-- `aes_add_round_key`, with the words from `first` on -/
def aesAddRoundKey (roundKeys : List UInt32) (first : Nat) (state : AesState) : AesState :=
  fun j i =>
  state j i ^^^ ((roundKeys.getD (first + i.val) 0 >>> UInt32.ofNat (24 - j.val * 8)) &&& 0xFF).toUInt8

/-! ## The key -/

def aesWord (b0 b1 b2 b3 : UInt8) : UInt32 :=
  (b0.toUInt32 <<< 24) ||| (b1.toUInt32 <<< 16) ||| (b2.toUInt32 <<< 8) ||| b3.toUInt32

def aesSubWord (w : UInt32) : UInt32 :=
  aesWord (aesSbox.getD ((w >>> 24) &&& 0xFF).toNat 0) (aesSbox.getD ((w >>> 16) &&& 0xFF).toNat 0)
    (aesSbox.getD ((w >>> 8) &&& 0xFF).toNat 0) (aesSbox.getD (w &&& 0xFF).toNat 0)

/-- A round of the second loop of `aes_key_expansion`. -/
def aesExpandWord (nk : Nat) (roundKeys : List UInt32) (i : Nat) : List UInt32 :=
  let temp := roundKeys.getD (i - 1) 0
  let temp :=
    if i % nk = 0 then
      aesSubWord ((temp <<< 8) ||| (temp >>> 24)) ^^^ ((aesRcon.getD (i / nk) 0).toUInt32 <<< 24)
    else if 6 < nk ∧ i % nk = 4 then aesSubWord temp
    else temp
  roundKeys ++ [roundKeys.getD (i - nk) 0 ^^^ temp]

/-- `aes_key_expansion`: the words of the array that are written -/
def aesKeyExpansion (key : List UInt8) (rounds : Nat) : List UInt32 :=
  let nk := key.length / 4
  let words := (List.range nk).map fun i =>
    aesWord (key.getD (i * 4) 0) (key.getD (i * 4 + 1) 0) (key.getD (i * 4 + 2) 0) (key.getD (i * 4 + 3) 0)
  (List.range' nk (4 * (rounds + 1) - nk)).foldl (aesExpandWord nk) words

/-- `aes_ctx_t` -/
structure AesCtx where
  rounds : Nat
  keyLen : Nat
  roundKeys : List UInt32
  iv : Block 16

/-- `aes_init`, with the `key_len` bytes of the key -/
def aesInit (key : List UInt8) : Option AesCtx :=
  let init (rounds : Nat) : AesCtx :=
    { rounds := rounds, keyLen := key.length, roundKeys := aesKeyExpansion key rounds, iv := Block.zero }
  if key.length = 16 then some (init 10)
  else if key.length = 24 then some (init 12)
  else if key.length = 32 then some (init 14)
  else none

def aesSetIv (ctx : AesCtx) (iv : Block 16) : AesCtx := { ctx with iv := iv }

/-! ## One block -/

def aesStateOf (input : Block 16) : AesState := fun j i => input.byte (i.val * 4 + j.val)

def aesBlockOf (state : AesState) : Block 16 := fun k =>
  state ⟨k.val % 4, Nat.mod_lt _ (by decide)⟩ ⟨k.val / 4, Nat.div_lt_of_lt_mul k.isLt⟩

/-- A round in the loop of `aes_encrypt_ecb`. -/
def aesEncryptRound (ctx : AesCtx) (state : AesState) (round : Nat) : AesState :=
  aesAddRoundKey ctx.roundKeys (round * 4) (aesMixColumns (aesShiftRows (aesSubBytes state)))

/-- A round in the loop of `aes_decrypt_ecb`. -/
def aesDecryptRound (ctx : AesCtx) (state : AesState) (round : Nat) : AesState :=
  aesInvMixColumns (aesAddRoundKey ctx.roundKeys (round * 4) (aesInvSubBytes (aesInvShiftRows state)))

def aesEncryptEcb (ctx : AesCtx) (input : Block 16) : Block 16 :=
  let state := aesAddRoundKey ctx.roundKeys 0 (aesStateOf input)
  let state := (List.range' 1 (ctx.rounds - 1)).foldl (aesEncryptRound ctx) state
  aesBlockOf (aesAddRoundKey ctx.roundKeys (ctx.rounds * 4) (aesShiftRows (aesSubBytes state)))

/-- `aes_decrypt_ecb`; `rounds` is not zero in a context of `aes_init`, so that `rounds - 1` does
not wrap -/
def aesDecryptEcb (ctx : AesCtx) (input : Block 16) : Block 16 :=
  let state := aesAddRoundKey ctx.roundKeys (ctx.rounds * 4) (aesStateOf input)
  let state := (List.range' 1 (ctx.rounds - 1)).reverse.foldl (aesDecryptRound ctx) state
  aesBlockOf (aesAddRoundKey ctx.roundKeys 0 (aesInvSubBytes (aesInvShiftRows state)))

/-! ## Chaining -/

def aesBlockAt (m : AesMemory) (a : Nat) : Block 16 := fun j => m (a + j.val)

def aesPutBlock (m : AesMemory) (a : Nat) (b : Block 16) : AesMemory := fun x =>
  if a ≤ x ∧ x < a + 16 then b.byte (x - a) else m x

def aesXorBlock (a b : Block 16) : Block 16 := fun j => a j ^^^ b j

/-- The loop of `aes_encrypt_cbc`, with the blocks that are left. -/
def aesEncryptBlocks (ctx : AesCtx) : Nat → Nat → Nat → Block 16 → AesMemory → AesMemory
  | 0, _, _, _, m => m
  | n + 1, input, output, iv, m =>
    let m := aesPutBlock m output (aesEncryptEcb ctx (aesXorBlock (aesBlockAt m input) iv))
    aesEncryptBlocks ctx n (input + 16) (output + 16) (aesBlockAt m output) m

/-- The loop of `aes_decrypt_cbc`, with the blocks that are left; the next `iv` is read after the
output has been written. -/
def aesDecryptBlocks (ctx : AesCtx) : Nat → Nat → Nat → Block 16 → AesMemory → AesMemory
  | 0, _, _, _, m => m
  | n + 1, input, output, iv, m =>
    let block := aesDecryptEcb ctx (aesBlockAt m input)
    let m := aesPutBlock m output (aesXorBlock block iv)
    aesDecryptBlocks ctx n (input + 16) (output + 16) (aesBlockAt m input) m

def aesEncryptCbc (ctx : AesCtx) (input length output : Nat) (m : AesMemory) : Int × AesMemory :=
  if length % 16 ≠ 0 then (-1, m) else (0, aesEncryptBlocks ctx (length / 16) input output ctx.iv m)

def aesDecryptCbc (ctx : AesCtx) (input length output : Nat) (m : AesMemory) : Int × AesMemory :=
  if length % 16 ≠ 0 then (-1, m) else (0, aesDecryptBlocks ctx (length / 16) input output ctx.iv m)

/-- A call of `aes_encrypt_cbc` or `aes_decrypt_cbc` from one buffer to another. -/
def aesCbcBuffers (crypt : AesCtx → Nat → Nat → Nat → AesMemory → Int × AesMemory) (ctx : AesCtx)
    (input : List UInt8) :
    Int × List UInt8 :=
  let r := crypt ctx 0 input.length input.length (store (fun _ => 0) 0 input)
  (r.1, load r.2 input.length input.length)

end Monios.Model
