import Monios.Library.Words

/-!
# RSA signature verification

`rsa_verify_pkcs1_v15` of `kernel/net/rsa.c`, over an arbitrary modular
exponentiation.  The arithmetic of `rsa_montgomery_modpow` and the compression
functions of the hashes are parameters, collected in `Primitives`: nothing proved
from this module depends on what they compute.
-/

set_option autoImplicit false

namespace Monios.Model

/-- `rsa_pubkey_t`; the two big integers by their values. -/
structure RsaPubkey where
  n : Nat
  e : Nat
  bits : Nat
  deriving DecidableEq, Repr

/-- `RSA_HASH_MD5`, `RSA_HASH_SHA1` and `RSA_HASH_SHA256`. -/
inductive RsaHash
  | md5 | sha1 | sha256
  deriving DecidableEq, Repr

/-- The hash functions and `rsa_montgomery_modpow`; `none` is its return value `-1`. -/
structure Primitives where
  md5 : List UInt8 → List UInt8
  sha1 : List UInt8 → List UInt8
  sha256 : List UInt8 → List UInt8
  rsaMontgomeryModpow : RsaPubkey → List UInt8 → Option (List UInt8)

/-- `MD5_DIGEST_SIZE`, `SHA1_DIGEST_SIZE` and `SHA256_DIGEST_SIZE`. -/
def RsaHash.digestSize : RsaHash → Nat
  | .md5 => 16
  | .sha1 => 20
  | .sha256 => 32

/-- `rsa_md5_prefix`, `rsa_sha1_prefix` and `rsa_sha256_prefix`. -/
def RsaHash.digestInfo : RsaHash → List UInt8
  | .md5 =>
    [0x30, 0x20, 0x30, 0x0c, 0x06, 0x08, 0x2a, 0x86, 0x48, 0x86, 0xf7, 0x0d, 0x02, 0x05, 0x05, 0x00, 0x04, 0x10]
  | .sha1 =>
    [0x30, 0x21, 0x30, 0x09, 0x06, 0x05, 0x2b, 0x0e, 0x03, 0x02, 0x1a, 0x05, 0x00, 0x04, 0x14]
  | .sha256 =>
    [0x30, 0x31, 0x30, 0x0d, 0x06, 0x09, 0x60, 0x86, 0x48, 0x01, 0x65, 0x03, 0x04, 0x02, 0x01, 0x05, 0x00, 0x04, 0x20]

def rsaMaxModulusBytes : Nat := 256

/-- `rsa_public_decrypt` into a buffer of `RSA_MAX_MODULUS_BYTES` bytes. -/
def rsaPublicDecrypt (P : Primitives) (key : RsaPubkey) (input : List UInt8) :
    Option (List UInt8) :=
  if input.length ≠ key.bits / 8 then none
  else if rsaMaxModulusBytes < key.bits / 8 then none
  else P.rsaMontgomeryModpow key input

/-- The padding check of `rsa_verify_pkcs1_v15` on what follows `00 01`: at least
eight `FF` bytes, the separator, the prefix and the digest.  As in the source,
nothing is said about bytes after the digest. -/
def pkcs1BlockOk (pre digest : List UInt8) (rest : List UInt8) : Bool :=
  let ps := rest.takeWhile (· == 0xFF)
  match rest.drop ps.length with
  | 0x00 :: t =>
    decide (8 ≤ ps.length) && decide (pre.length + digest.length ≤ t.length) &&
      t.take pre.length == pre && (t.drop pre.length).take digest.length == digest
  | _ => false

/-- `rsa_verify_pkcs1_v15`; `true` is the return value 0. -/
def rsaVerifyPkcs1V15 (P : Primitives) (key : RsaPubkey) (signature digest : List UInt8)
    (hashType : RsaHash) : Bool :=
  if signature.length ≠ key.bits / 8 then false
  else if digest.length ≠ hashType.digestSize then false
  else
    match rsaPublicDecrypt P key signature with
    | some (0x00 :: 0x01 :: rest) => pkcs1BlockOk hashType.digestInfo digest rest
    | _ => false

end Monios.Model

/-!
# The arithmetic of `rsa.c`

`rsa_montgomery_modpow` of `kernel/net/rsa.c` and what it calls: numbers as little-endian lists of
32-bit words, the conversion from and to big-endian bytes, and `rsa_pubkey_init`.

The arrays of the source have `RSA_MAX_MODULUS_WORDS` words or twice as many; a list here is the
part that is in use.  A loop over an index is a recursion over the words from that index on.
-/

namespace Monios.Model

open Monios.Library

def rsaMaxModulusWords : Nat := 64

/-- `rsa_pubkey_t`, with the words of its numbers -/
structure RsaKeyWords where
  n : List UInt32
  e : List UInt32
  bits : UInt32
  deriving DecidableEq

/-! ## Bytes and words -/

def wordOfBytes (a b c d : UInt8) : UInt32 :=
  a.toUInt32 ||| b.toUInt32 <<< 8 ||| c.toUInt32 <<< 16 ||| d.toUInt32 <<< 24

def packWords : List UInt8 → List UInt32
  | [] => []
  | [a] => [wordOfBytes a 0 0 0]
  | [a, b] => [wordOfBytes a b 0 0]
  | [a, b, c] => [wordOfBytes a b c 0]
  | a :: b :: c :: d :: rest => wordOfBytes a b c d :: packWords rest

/-- The loop at the end of `bignum_from_bytes`: one word is left at least. -/
def trimWords (words : List UInt32) : List UInt32 :=
  match words.reverse.dropWhile (· == 0) with
  | [] => [0]
  | w :: ws => (w :: ws).reverse

def bignumFromBytes (bytes : List UInt8) : List UInt32 :=
  trimWords ((packWords (bytes.dropWhile (· == 0)).reverse).take (2 * rsaMaxModulusWords))

def bytesOfWord (w : UInt32) : List UInt8 :=
  [w.toUInt8, (w >>> 8).toUInt8, (w >>> 16).toUInt8, (w >>> 24).toUInt8]

def bignumToBytes (words : List UInt32) (len : Nat) : List UInt8 :=
  ((words.flatMap bytesOfWord ++ List.replicate len 0).take len).reverse

/-! ## Comparison, subtraction and doubling -/

def rsaWordsCompare : List UInt32 → List UInt32 → Ordering
  | l :: left, r :: right => (rsaWordsCompare left right).then (compare l.toNat r.toNat)
  | _, _ => .eq

/-- `rsa_words_sub`, from a word on and with the borrow that has come so far -/
def rsaWordsSub : UInt64 → List UInt32 → List UInt32 → List UInt32
  | borrow, l :: left, r :: right =>
    let rightValue := r.toUInt64 + borrow
    (l.toUInt64 - rightValue).toUInt32 :: rsaWordsSub (if l.toUInt64 < rightValue then 1 else 0) left right
  | _, _, _ => []

/-- The loop of `rsa_words_double_mod` -/
def rsaWordsShift : UInt32 → List UInt32 → List UInt32 × UInt32
  | carry, [] => ([], carry)
  | carry, v :: value =>
    let rest := rsaWordsShift (v >>> 31) value
    ((v <<< 1 ||| carry) :: rest.1, rest.2)

def rsaWordsDoubleMod (modulus value : List UInt32) : List UInt32 :=
  let shifted := rsaWordsShift 0 value
  if shifted.2 ≠ 0 ∨ rsaWordsCompare shifted.1 modulus ≠ .lt then rsaWordsSub 0 shifted.1 modulus
  else shifted.1

/-! ## Montgomery multiplication -/

def rsaMontgomeryN0Inverse (n0 : UInt32) : UInt32 :=
  0 - (fun inverse => inverse * (2 - n0 * inverse))^[5] 1

def addCarry : List UInt32 → UInt64 → List UInt32 × UInt64
  | [], carry => ([], carry)
  | p :: product, carry =>
    if carry = 0 then (p :: product, 0)
    else
      let value := p.toUInt64 + carry
      let rest := addCarry product (value >>> 32)
      (value.toUInt32 :: rest.1, rest.2)

/-- The two loops over `j`: the product of a word and a number is added, and the carry that is left
is returned. -/
def mulAddWords (x : UInt32) : List UInt32 → List UInt32 → UInt64 → List UInt32 × UInt64
  | [], product, carry => addCarry product carry
  | _ :: _, [], carry => ([], carry)
  | r :: right, p :: product, carry =>
    let value := x.toUInt64 * r.toUInt64 + p.toUInt64 + carry
    let rest := mulAddWords x right product (value >>> 32)
    (value.toUInt32 :: rest.1, rest.2)

/-- The first loop over `i` of `rsa_montgomery_multiply`, on the product from `i` on. -/
def multiplyRows (right : List UInt32) : List UInt32 → List UInt32 → Option (List UInt32)
  | [], product => some product
  | l :: left, product =>
    let row := mulAddWords l right product 0
    if row.2 ≠ 0 then none
    else
      match row.1 with
      | [] => none
      | p :: product => (multiplyRows right left product).map (p :: ·)

/-- The second loop over `i`.  The words in front of `i` are not read again. -/
def reduceRows (modulus : List UInt32) (n0Inverse : UInt32) :
    Nat → List UInt32 → Option (List UInt32)
  | 0, product => some product
  | rounds + 1, product =>
    let factor := product.headD 0 * n0Inverse
    let row := mulAddWords factor modulus product 0
    if row.2 ≠ 0 then none else reduceRows modulus n0Inverse rounds row.1.tail

def rsaMontgomeryMultiply (modulus : List UInt32) (n0Inverse : UInt32) (left right : List UInt32) :
    Option (List UInt32) :=
  let words := modulus.length
  if words = 0 ∨ rsaMaxModulusWords < words then none
  else
    match multiplyRows right left (List.replicate (2 * rsaMaxModulusWords + 2) 0) with
    | none => none
    | some product =>
      match reduceRows modulus n0Inverse words product with
      | none => none
      | some upper =>
        if upper.getD words 0 ≠ 0 ∨ rsaWordsCompare (upper.take words) modulus ≠ .lt then
          some (rsaWordsSub 0 (upper.take words) modulus)
        else some (upper.take words)

/-! ## Exponentiation -/

def exponentBits (e : List UInt32) : List Bool :=
  e.flatMap fun w => (List.range 32).map fun i => w >>> UInt32.ofNat i &&& 1 != 0

/-- The loop over the bits, on `result` and `base`. -/
def rsaModpowLoop (modulus : List UInt32) (n0Inverse : UInt32) :
    List Bool → List UInt32 × List UInt32 → Option (List UInt32 × List UInt32)
  | [], state => some state
  | bit :: bits, (result, base) => do
      let result ← if bit then rsaMontgomeryMultiply modulus n0Inverse result base else some result
      let base ← rsaMontgomeryMultiply modulus n0Inverse base base
      rsaModpowLoop modulus n0Inverse bits (result, base)

def padWords (words : Nat) (number : List UInt32) : List UInt32 :=
  number ++ List.replicate (words - number.length) 0

/-- `rsa_montgomery_modpow`; `none` is `-1`. -/
def rsaMontgomeryModpow (key : RsaKeyWords) (input : List UInt8) : Option (List UInt8) :=
  let words := key.n.length
  let modulus := key.n
  if words = 0 ∨ rsaMaxModulusWords < words ∨ modulus.headD 0 &&& 1 = 0 then none
  else
    let inputNumber := bignumFromBytes input
    if words < inputNumber.length ∨ inputNumber.length = words ∧ rsaWordsCompare inputNumber modulus ≠ .lt then none
    else do
      let base := (rsaWordsDoubleMod modulus)^[words * 32] (padWords words inputNumber)
      let one := (rsaWordsDoubleMod modulus)^[words * 32] (padWords words [1])
      let n0Inverse := rsaMontgomeryN0Inverse (modulus.headD 0)
      let state ← rsaModpowLoop modulus n0Inverse (exponentBits key.e) (one, base)
      let result ← rsaMontgomeryMultiply modulus n0Inverse state.1 (padWords words [1])
      some (bignumToBytes result (key.bits / 8).toNat)

/-! ## Keys -/

def rsaPubkeyInit (modulus exponent : List UInt8) : RsaKeyWords where
  n := bignumFromBytes modulus
  e := bignumFromBytes exponent
  -- the length of the modulus is a 32-bit value, and so is the product
  bits := UInt32.ofNat modulus.length * 8

def RsaKeyWords.pubkey (key : RsaKeyWords) : RsaPubkey :=
  ⟨wordsValue key.n, wordsValue key.e, key.bits.toNat⟩

/-- `rsa_verify_pkcs1_v15` with the arithmetic of this module.  The hashes are not called. -/
def rsaVerifySignature (key : RsaKeyWords) (signature digest : List UInt8) (hashType : RsaHash) :
    Bool :=
  rsaVerifyPkcs1V15
    { md5 := id, sha1 := id, sha256 := id, rsaMontgomeryModpow := fun _ input => rsaMontgomeryModpow key input }
    key.pubkey signature digest hashType

end Monios.Model

/-!
# General arithmetic of `rsa.c`

`bignum_mod`, `bignum_mul` and `bignum_modpow` of `kernel/net/rsa.c` with what they call, over the
words of `Monios.Model.Montgomery`.  An array has `2 * RSA_MAX_MODULUS_WORDS` words, of which those
in use are kept.

`bignum_mod` is also called with the same object for the number and the result: then it reads what
it has written.
-/

namespace Monios.Model

/-! ## Bits -/

/-- The loop of `bignum_bit_length`; a word has 32 bits. -/
def topBits : Nat → UInt32 → Nat
  | 0, _ => 0
  | rounds + 1, top => if top ≠ 0 then topBits rounds (top >>> 1) + 1 else 0

def bignumBitLength (a : List UInt32) : Nat :=
  if a.length = 0 then 0
  else
    let bits := (a.length - 1) * 32 + topBits 32 (a.getLastD 0)
    if bits = 0 then 1 else bits

def bignumGetBit (a : List UInt32) (bit : Nat) : Bool :=
  match a[bit / 32]? with
  | none => false
  | some word => word >>> UInt32.ofNat (bit % 32) &&& 1 != 0

/-- `bignum_shl1`; its loop is that of `rsa_words_double_mod`. -/
def bignumShl1 (a : List UInt32) : List UInt32 :=
  let shifted := rsaWordsShift 0 a
  if shifted.2 ≠ 0 ∧ a.length < 2 * rsaMaxModulusWords then shifted.1 ++ [shifted.2] else shifted.1

/-- The loop of `bignum_modpow` that halves the exponent. -/
def shiftRight : List UInt32 → List UInt32
  | [] => []
  | w :: words => (w >>> 1 ||| (words.headD 0 &&& 1) <<< 31) :: shiftRight words

/-! ## Comparison and subtraction -/

def bignumCmp (a b : List UInt32) : Ordering :=
  if a.length ≠ b.length then compare a.length b.length else rsaWordsCompare a b

/-- The loop of `bignum_sub`, from a word on and with the borrow that has come so far. -/
def bignumSubFrom (borrow : Int) : List UInt32 → List UInt32 → List UInt32
  | [], _ => []
  | a :: as, bs =>
    let diff : Int := a.toNat - borrow - (bs.headD 0).toNat
    if diff < 0 then UInt32.ofNat (diff + 2 ^ 32).toNat :: bignumSubFrom 1 as bs.tail
    else UInt32.ofNat diff.toNat :: bignumSubFrom 0 as bs.tail

def bignumSub (a b : List UInt32) : List UInt32 := trimWords (bignumSubFrom 0 a b)

/-! ## Products -/

/-- The loop over `j` of `bignum_mul`, on the product from the word `i` on. -/
def mulRow (x : UInt32) : List UInt32 → List UInt32 → UInt64 → List UInt32
  | _, [], _ => []
  | [], _ :: product, carry => carry.toUInt32 :: product
  | b :: bs, p :: product, carry =>
    let sum := x.toUInt64 * b.toUInt64 + p.toUInt64 + carry
    sum.toUInt32 :: mulRow x bs product (sum >>> 32)

/-- The loop over `i` of `bignum_mul`. -/
def mulRows (b : List UInt32) : List UInt32 → List UInt32 → List UInt32
  | x :: as, product =>
    match mulRow x b product 0 with
    | [] => []
    | p :: product => p :: mulRows b as product
  | [], product => product

def bignumMul (a b : List UInt32) : List UInt32 :=
  trimWords ((mulRows b a (List.replicate (2 * rsaMaxModulusWords) 0)).take (a.length + b.length))

/-! ## Remainders -/

/-- The number that `bignum_mod` reduces: another object than the result, or the result itself. -/
inductive ModOperand
  | other (a : List UInt32)
  | result

def ModOperand.words (result : List UInt32) : ModOperand → List UInt32
  | .other a => a
  | .result => result

/-- The loop of `bignum_mod`, for the bits that are left. -/
def bignumModFrom (a : ModOperand) (m : List UInt32) : Nat → List UInt32 → List UInt32
  | 0, result => result
  | bit + 1, result =>
    let shifted := bignumShl1 result
    let extended := if bignumGetBit (a.words shifted) bit then (shifted.headD 0 ||| 1) :: shifted.tail else shifted
    bignumModFrom a m bit (if bignumCmp extended m ≠ .lt then bignumSub extended m else extended)

def bignumInit (_a : List UInt32) : List UInt32 := [0]

/-- `bignum_mod` on a result with some old words -/
def bignumMod (old : List UInt32) (a : ModOperand) (m : List UInt32) : List UInt32 :=
  let result := bignumInit old
  if m = [0] then result else bignumModFrom a m (bignumBitLength (a.words result)) result

/-- `bignum_modmul` on a result with some old words; the product is an object of its own. -/
def bignumModmul (old a b m : List UInt32) : List UInt32 := bignumMod old (.other (bignumMul a b)) m

/-! ## Powers -/

/-- The loop of `bignum_modpow`: the result, or `none` when the rounds do not suffice. -/
def bignumModpowFrom (m : List UInt32) :
    Nat → List UInt32 → List UInt32 → List UInt32 → List UInt32 → Option (List UInt32)
  | 0, _, _, _, _ => none
  | rounds + 1, result, base, exp, temp =>
    if exp.length > 0 then
      let temp := if exp.headD 0 &&& 1 ≠ 0 then bignumModmul temp result base m else temp
      let result := if exp.headD 0 &&& 1 ≠ 0 then temp else result
      let exp := trimWords (shiftRight exp)
      let temp := bignumModmul temp base base m
      bignumModpowFrom m rounds result temp exp temp
    else some result

/-- `bignum_modpow`; `base_copy` is reduced into itself, and `temp` has any words. -/
def bignumModpow (rounds : Nat) (base exp m temp : List UInt32) : Option (List UInt32) :=
  bignumModpowFrom m rounds [1] (bignumMod base .result m) exp temp

end Monios.Model
