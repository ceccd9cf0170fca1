import Monios.Library.Block
import Mathlib.Data.Fin.VecNotation

/-!
# Hashes of messages in blocks

A hash of the Merkle-Damgård kind compresses a state with the blocks of a padded message, one after
the other. `Absorbed` is what somebody has who sees the message in pieces: the state after the whole
blocks so far, and the beginning of the next one in a buffer.
-/

set_option autoImplicit false

namespace Monios.Library.MerkleDamgard

variable {σ : Type*}

/-! ## Messages -/

def chain (compress : σ → List UInt8 → σ) (iv : σ) (m : List UInt8) (count : Nat) : σ :=
  (List.range count).foldl (fun s i => compress s ((m.drop (64 * i)).take 64)) iv

/-- A message with a one bit, as few zeros as there can be, and eight bytes for its length in bits
behind it. -/
def padded (lengthBytes : Nat → List UInt8) (m : List UInt8) : List UInt8 :=
  m ++ 0x80 :: List.replicate ((119 - m.length % 64) % 64) 0 ++ lengthBytes (8 * m.length)

def hashed (compress : σ → List UInt8 → σ) (iv : σ) (lengthBytes : Nat → List UInt8)
    (m : List UInt8) : σ :=
  chain compress iv (padded lengthBytes m) ((padded lengthBytes m).length / 64)

def hmac (hash : List UInt8 → List UInt8) (key text : List UInt8) : List UInt8 :=
  let key := if 64 < key.length then hash key else key
  let key := key ++ List.replicate (64 - key.length) 0
  hash (key.map (· ^^^ 0x5C) ++ hash (key.map (· ^^^ 0x36) ++ text))

def expansionSeed (mac : List UInt8 → List UInt8 → List UInt8) (secret seed : List UInt8) :
    Nat → List UInt8
  | 0 => seed
  | i + 1 => mac secret (expansionSeed mac secret seed i)

def expansion (mac : List UInt8 → List UInt8 → List UInt8) (secret seed : List UInt8) (n : Nat) :
    List UInt8 :=
  ((List.range n).flatMap fun i => mac secret (expansionSeed mac secret seed (i + 1) ++ seed)).take n

section

variable {compress : σ → List UInt8 → σ} {iv : σ} {m d : List UInt8}

theorem chain_succ (m : List UInt8) (count : Nat) :
    chain compress iv m (count + 1) =
      compress (chain compress iv m count) ((m.drop (64 * count)).take 64) := by
  unfold chain
  rw [List.range_succ, List.foldl_append]
  rfl

theorem chain_append (count : Nat) (h : 64 * count ≤ m.length) (d : List UInt8) :
    chain compress iv (m ++ d) count = chain compress iv m count := by
  induction count with
  | zero => rfl
  | succ count ih =>
    rw [chain_succ, chain_succ, ih (by omega), List.drop_append_of_le_length (by omega),
      List.take_append_of_le_length]
    rw [List.length_drop]
    omega

/-! ## Pieces -/

structure Absorbed (compress : σ → List UInt8 → σ) (iv : σ) (m : List UInt8) (state : σ) (buffer : Block 64) : Prop where
  state_eq : state = chain compress iv m (m.length / 64)
  buffer_eq : buffer.bytes 0 (m.length % 64) = m.drop (64 * (m.length / 64))

theorem bytes_patch {n : Nat} (b : Block n) (o : Nat) (d : List UInt8) (h : o + d.length ≤ n) :
    (b.patch o d).bytes 0 (o + d.length) = b.bytes 0 o ++ d := by
  apply List.ext_getElem
  · simp
  · intro i hi hi'
    simp only [Block.length_bytes] at hi
    simp only [Block.bytes, List.getElem_map, List.getElem_range, Nat.zero_add]
    by_cases hio : i < o
    · rw [Block.byte_patch_of_disjoint b (.inl hio), List.getElem_append_left (by simpa using hio)]
      simp
    · obtain ⟨j, rfl⟩ := Nat.exists_eq_add_of_le (Nat.not_lt.mp hio)
      have hj : j < d.length := by omega
      rw [Block.byte_patch_self b hj h, List.getElem_append_right (by simp),
        List.getD_eq_getElem _ _ hj]
      simp

theorem patch_nil {n : Nat} (b : Block n) (o : Nat) : b.patch o [] = b := by
  funext i
  unfold Block.patch
  rw [if_neg]
  rw [List.length_nil]
  omega

theorem patch_patch {n : Nat} (b : Block n) {o p : Nat} {d : List UInt8} (h : p = o + d.length)
    (e : List UInt8) :
    (b.patch o d).patch p e = b.patch o (d ++ e) := by
  rw [h, Block.patch_append]

theorem absorbed_start (compress : σ → List UInt8 → σ) (iv : σ) (buffer : Block 64) :
    Absorbed compress iv [] iv buffer :=
  ⟨rfl, rfl⟩

theorem Absorbed.copy {state : σ} {buffer : Block 64} (h : Absorbed compress iv m state buffer)
    (hroom : m.length % 64 + d.length < 64) :
    Absorbed compress iv (m ++ d) state (buffer.patch (m.length % 64) d) := by
  have hdiv : (m ++ d).length / 64 = m.length / 64 := by
    rw [List.length_append]
    omega
  have hmod : (m ++ d).length % 64 = m.length % 64 + d.length := by
    rw [List.length_append]
    omega
  refine ⟨?_, ?_⟩
  · rw [hdiv, chain_append _ (by omega)]
    exact h.state_eq
  · rw [hdiv, hmod, bytes_patch _ _ _ (by omega), h.buffer_eq,
      List.drop_append_of_le_length (by omega)]

theorem Absorbed.fill {state : σ} {buffer : Block 64} (h : Absorbed compress iv m state buffer)
    (hfull : m.length % 64 + d.length = 64) (buffer' : Block 64) :
    Absorbed compress iv (m ++ d)
      (compress state ((buffer.patch (m.length % 64) d).bytes 0 64)) buffer' := by
  have hdiv : (m ++ d).length / 64 = m.length / 64 + 1 := by
    rw [List.length_append]
    omega
  have hmod : (m ++ d).length % 64 = 0 := by
    rw [List.length_append]
    omega
  refine ⟨?_, ?_⟩
  · have hblock := bytes_patch buffer (m.length % 64) d (by omega)
    rw [hfull, h.buffer_eq, ← List.drop_append_of_le_length (by omega)] at hblock
    rw [hdiv, chain_succ, chain_append _ (by omega), ← h.state_eq, hblock, List.take_of_length_le]
    rw [List.length_drop, List.length_append]
    omega
  · rw [hmod, hdiv]
    symm
    apply List.drop_of_length_le
    rw [List.length_append]
    omega

theorem Absorbed.hashed_eq {lengthBytes : Nat → List UInt8} {state : σ} {buffer : Block 64}
    (h : Absorbed compress iv (padded lengthBytes m) state buffer) :
    state = hashed compress iv lengthBytes m := h.state_eq

end

end Monios.Library.MerkleDamgard

/-!
# MD5, SHA-1 and SHA-256

The three hashes as their standards (RFC 1321 and FIPS 180-4) have them: words are numbers made of
bytes, the words of a message schedule are given by their recurrence, and the constants of SHA-1 and
SHA-256 are digits of roots (`root_spec`). The constants of MD5, which are values of the sine, are a
table.
-/

namespace Monios.Library.HashStandards

open Monios.Library.MerkleDamgard

/-! ## Words -/

def rotl (n x : UInt32) : UInt32 := (x <<< n) ||| (x >>> (32 - n))

def rotr (n x : UInt32) : UInt32 := (x >>> n) ||| (x <<< (32 - n))

def bigWord (block : List UInt8) (i : Nat) : UInt32 :=
  let byte (j : Nat) := (block.getD (4 * i + j) 0).toNat
  UInt32.ofNat (((byte 0 * 256 + byte 1) * 256 + byte 2) * 256 + byte 3)

def littleWord (block : List UInt8) (i : Nat) : UInt32 :=
  let byte (j : Nat) := (block.getD (4 * i + j) 0).toNat
  UInt32.ofNat (byte 0 + 256 * (byte 1 + 256 * (byte 2 + 256 * byte 3)))

def bigBytes (n value : Nat) : List UInt8 :=
  (List.range n).reverse.map fun i => UInt8.ofNat (value / 256 ^ i)

def littleBytes (n value : Nat) : List UInt8 :=
  (List.range n).map fun i => UInt8.ofNat (value / 256 ^ i)

/-! ## Roots -/

def rootFrom (k value : Nat) : Nat → Nat → Nat
  | 0, x => x
  | bits + 1, x => if (x + 2 ^ bits) ^ k ≤ value then rootFrom k value bits (x + 2 ^ bits) else rootFrom k value bits x

def root (k value : Nat) : Nat := rootFrom k value 40 0

def primes : List Nat := (List.range 312).filter fun n => decide (2 ≤ n) &&
      (List.range' 2 (n - 2)).all fun d => n % d != 0

/-! ## MD5 -/

def md5T : List UInt32 :=
  [ 0xd76aa478, 0xe8c7b756, 0x242070db, 0xc1bdceee, 0xf57c0faf, 0x4787c62a, 0xa8304613, 0xfd469501,
    0x698098d8, 0x8b44f7af, 0xffff5bb1, 0x895cd7be, 0x6b901122, 0xfd987193, 0xa679438e, 0x49b40821,
    0xf61e2562, 0xc040b340, 0x265e5a51, 0xe9b6c7aa, 0xd62f105d, 0x02441453, 0xd8a1e681, 0xe7d3fbc8,
    0x21e1cde6, 0xc33707d6, 0xf4d50d87, 0x455a14ed, 0xa9e3e905, 0xfcefa3f8, 0x676f02d9, 0x8d2a4c8a,
    0xfffa3942, 0x8771f681, 0x6d9d6122, 0xfde5380c, 0xa4beea44, 0x4bdecfa9, 0xf6bb4b60, 0xbebfbc70,
    0x289b7ec6, 0xeaa127fa, 0xd4ef3085, 0x04881d05, 0xd9d4d039, 0xe6db99e5, 0x1fa27cf8, 0xc4ac5665,
    0xf4292244, 0x432aff97, 0xab9423a7, 0xfc93a039, 0x655b59c3, 0x8f0ccc92, 0xffeff47d, 0x85845dd1,
    0x6fa87e4f, 0xfe2ce6e0, 0xa3014314, 0x4e0811a1, 0xf7537e82, 0xbd3af235, 0x2ad7d2bb, 0xeb86d391 ]

def md5Shift (i : Nat) : UInt32 :=
  ([[7, 12, 17, 22], [5, 9, 14, 20], [4, 11, 16, 23], [6, 10, 15, 21]].getD (i / 16) []).getD (i % 4) 0

def md5F (i : Nat) (x y z : UInt32) : UInt32 :=
  if i < 16 then (x &&& y) ||| (~~~x &&& z)
  else if i < 32 then (x &&& z) ||| (y &&& ~~~z)
  else if i < 48 then x ^^^ y ^^^ z
  else y ^^^ (x ||| ~~~z)

def md5Index (i : Nat) : Nat :=
  if i < 16 then i else if i < 32 then (5 * i + 1) % 16 else if i < 48 then (3 * i + 5) % 16 else 7 * i % 16

def md5Step (m : Nat → UInt32) (s : Fin 4 → UInt32) (i : Nat) : Fin 4 → UInt32 :=
  ![s 3, s 1 + rotl (md5Shift i) (s 0 + md5F i (s 1) (s 2) (s 3) + m (md5Index i) + md5T.getD i 0), s 1, s 2]

def md5Compress (s : Fin 4 → UInt32) (block : List UInt8) : Fin 4 → UInt32 :=
  let r := (List.range 64).foldl (md5Step (littleWord block)) s
  fun i => s i + r i

def md5Iv : Fin 4 → UInt32 := ![0x67452301, 0xefcdab89, 0x98badcfe, 0x10325476]

def md5 (m : List UInt8) : List UInt8 :=
  (List.ofFn (hashed md5Compress md5Iv (littleBytes 8) m)).flatMap fun w => littleBytes 4 w.toNat

/-! ## Functions of the secure hash standard -/

def ch (x y z : UInt32) : UInt32 := (x &&& y) ^^^ (~~~x &&& z)

def parity (x y z : UInt32) : UInt32 := x ^^^ y ^^^ z

def maj (x y z : UInt32) : UInt32 := (x &&& y) ^^^ (x &&& z) ^^^ (y &&& z)

/-! ## SHA-1 -/

def sha1Schedule (m : Nat → UInt32) (t : Nat) : UInt32 :=
  if t < 16 then m t
  else rotl 1 (sha1Schedule m (t - 3) ^^^ sha1Schedule m (t - 8) ^^^ sha1Schedule m (t - 14) ^^^ sha1Schedule m (t - 16))
  termination_by t

def sha1F (t : Nat) : UInt32 → UInt32 → UInt32 → UInt32 :=
  if t < 20 then ch else if t < 40 then parity else if t < 60 then maj else parity

def sha1K (t : Nat) : UInt32 := UInt32.ofNat (root 2 (([2, 3, 5, 10].getD (t / 20) 0) * 2 ^ 60))

def sha1Step (w : Nat → UInt32) (s : Fin 5 → UInt32) (t : Nat) : Fin 5 → UInt32 :=
  ![rotl 5 (s 0) + sha1F t (s 1) (s 2) (s 3) + s 4 + sha1K t + w t, s 0, rotl 30 (s 1), s 2, s 3]

def sha1Compress (s : Fin 5 → UInt32) (block : List UInt8) : Fin 5 → UInt32 :=
  let r := (List.range 80).foldl (sha1Step (sha1Schedule (bigWord block))) s
  fun i => s i + r i

def sha1Iv : Fin 5 → UInt32 := ![0x67452301, 0xEFCDAB89, 0x98BADCFE, 0x10325476, 0xC3D2E1F0]

def sha1 (m : List UInt8) : List UInt8 :=
  (List.ofFn (hashed sha1Compress sha1Iv (bigBytes 8) m)).flatMap fun w => bigBytes 4 w.toNat

/-! ## SHA-256 -/

def bigSigma0 (x : UInt32) : UInt32 := rotr 2 x ^^^ rotr 13 x ^^^ rotr 22 x

def bigSigma1 (x : UInt32) : UInt32 := rotr 6 x ^^^ rotr 11 x ^^^ rotr 25 x

def smallSigma0 (x : UInt32) : UInt32 := rotr 7 x ^^^ rotr 18 x ^^^ (x >>> 3)

def smallSigma1 (x : UInt32) : UInt32 := rotr 17 x ^^^ rotr 19 x ^^^ (x >>> 10)

def sha256Schedule (m : Nat → UInt32) (t : Nat) : UInt32 :=
  if t < 16 then m t
  else
    smallSigma1 (sha256Schedule m (t - 2)) + sha256Schedule m (t - 7) + smallSigma0 (sha256Schedule m (t - 15)) +
      sha256Schedule m (t - 16)
  termination_by t

def sha256K : List UInt32 := primes.map fun p => UInt32.ofNat (root 3 (p * 2 ^ 96))

def sha256Step (w : Nat → UInt32) (s : Fin 8 → UInt32) (t : Nat) : Fin 8 → UInt32 :=
  let t1 := s 7 + bigSigma1 (s 4) + ch (s 4) (s 5) (s 6) + sha256K.getD t 0 + w t
  let t2 := bigSigma0 (s 0) + maj (s 0) (s 1) (s 2)
  ![t1 + t2, s 0, s 1, s 2, s 3 + t1, s 4, s 5, s 6]

def sha256Compress (s : Fin 8 → UInt32) (block : List UInt8) : Fin 8 → UInt32 :=
  let r := (List.range 64).foldl (sha256Step (sha256Schedule (bigWord block))) s
  fun i => s i + r i

def sha256Iv (i : Fin 8) : UInt32 := UInt32.ofNat (root 2 (primes.getD i 0 * 2 ^ 64))

def sha256 (m : List UInt8) : List UInt8 :=
  (List.ofFn (hashed sha256Compress sha256Iv (bigBytes 8) m)).flatMap fun w => bigBytes 4 w.toNat

/-! ## Identities -/

theorem ch_eq_or (x y z : UInt32) : (x &&& y) ||| (~~~x &&& z) = ch x y z := by
  apply UInt32.toBitVec_inj.mp
  apply BitVec.eq_of_getLsbD_eq
  intro i hi
  simp only [ch, UInt32.toBitVec_or, UInt32.toBitVec_and, UInt32.toBitVec_not, UInt32.toBitVec_xor,
    BitVec.getLsbD_or,
    BitVec.getLsbD_and, BitVec.getLsbD_xor, BitVec.getLsbD_not]
  cases x.toBitVec.getLsbD i <;> cases y.toBitVec.getLsbD i <;> cases z.toBitVec.getLsbD i <;> simp [hi]

theorem maj_eq_or (x y z : UInt32) : (x &&& y) ||| (x &&& z) ||| (y &&& z) = maj x y z := by
  apply UInt32.toBitVec_inj.mp
  apply BitVec.eq_of_getLsbD_eq
  intro i hi
  simp only [maj, UInt32.toBitVec_or, UInt32.toBitVec_and, UInt32.toBitVec_xor, BitVec.getLsbD_or,
    BitVec.getLsbD_and,
    BitVec.getLsbD_xor]
  cases x.toBitVec.getLsbD i <;> cases y.toBitVec.getLsbD i <;> cases z.toBitVec.getLsbD i <;> rfl

theorem foldl_schedule {w : Nat → UInt32} {grow : List UInt32 → Nat → UInt32} {start : List UInt32}
    (hstart : start = (List.range 16).map w)
    (hgrow : ∀ i, 16 ≤ i → grow ((List.range i).map w) i = w i) (n : Nat) :
    (List.range' 16 n).foldl (fun words i => words ++ [grow words i]) start =
      (List.range (16 + n)).map w := by
  induction n with
  | zero => exact hstart
  | succ n ih =>
    rw [List.range'_concat, List.foldl_append, ih, Nat.one_mul, ← Nat.add_assoc, List.range_succ,
      List.map_append]
    have hnext := hgrow (16 + n) (by omega)
    simp only [List.foldl_cons, List.foldl_nil, hnext, List.map_cons, List.map_nil]

end Monios.Library.HashStandards
