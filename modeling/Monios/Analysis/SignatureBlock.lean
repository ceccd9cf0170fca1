import Monios.Analysis.MontgomeryPower
import Mathlib.Data.List.TakeWhile

/-!
# The block of an RSA signature

`rsa_public_decrypt` writes the power of the signature into a block of `bits / 8` bytes
(`rsaMontgomeryModpow_eq`), and `rsa_verify_pkcs1_v15` accepts the blocks that start with the
padding, the prefix and the digest (`rsaVerifySignature_iff`). It does not look at the bytes behind
the digest, so that it is exact on the blocks that have none.
-/

set_option autoImplicit false

namespace Monios.Analysis

open Monios.Library Monios.Model

variable (bytes : List UInt8)

def blockValue (bytes : List UInt8) : Nat := bytesValue bytes.reverse

theorem blockValue_lt : blockValue bytes < 256 ^ bytes.length := by
  have h := bytesValue_lt bytes.reverse
  rwa [List.length_reverse] at h

/-- A zero in front adds nothing. -/
theorem blockValue_zero_cons : blockValue (0x00 :: bytes) = blockValue bytes := by
  rw [blockValue, List.reverse_cons, bytesValue_append]
  simp [blockValue]

theorem toNat_wordOfBytes (a b c d : UInt8) :
    (wordOfBytes a b c d).toNat = a.toNat + 256 * (b.toNat + 256 * (c.toNat + 256 * d.toNat)) := by
  have ha := a.toNat_lt
  have hb := b.toNat_lt
  have hc := c.toNat_lt
  have hd := d.toNat_lt
  have h8 : (b.toUInt32 <<< 8).toNat = b.toNat <<< 8 := by
    rw [UInt32.toNat_shiftLeft, UInt8.toNat_toUInt32, Nat.shiftLeft_eq, Nat.shiftLeft_eq]
    simp only [UInt32.reduceToNat, Nat.reduceMod, Nat.reducePow]
    omega
  have h16 : (c.toUInt32 <<< 16).toNat = c.toNat <<< 16 := by
    rw [UInt32.toNat_shiftLeft, UInt8.toNat_toUInt32, Nat.shiftLeft_eq, Nat.shiftLeft_eq]
    simp only [UInt32.reduceToNat, Nat.reduceMod, Nat.reducePow]
    omega
  have h24 : (d.toUInt32 <<< 24).toNat = d.toNat <<< 24 := by
    rw [UInt32.toNat_shiftLeft, UInt8.toNat_toUInt32, Nat.shiftLeft_eq, Nat.shiftLeft_eq]
    simp only [UInt32.reduceToNat, Nat.reduceMod, Nat.reducePow]
    omega
  -- the bytes do not overlap, from the lowest one up
  unfold wordOfBytes
  rw [UInt32.toNat_or, UInt32.toNat_or, UInt32.toNat_or, h8, h16, h24, UInt8.toNat_toUInt32]
  have hlow : a.toNat ||| b.toNat <<< 8 = b.toNat <<< 8 + a.toNat := by
    rw [Nat.or_comm, Nat.shiftLeft_add_eq_or_of_lt (by omega)]
  have hmid : b.toNat <<< 8 + a.toNat ||| c.toNat <<< 16 = c.toNat <<< 16 +
      (b.toNat <<< 8 + a.toNat) := by
    have hlt : b.toNat <<< 8 + a.toNat < 2 ^ 16 := by rw [Nat.shiftLeft_eq]; omega
    rw [Nat.or_comm, Nat.shiftLeft_add_eq_or_of_lt hlt]
  have hhigh : c.toNat <<< 16 + (b.toNat <<< 8 + a.toNat) ||| d.toNat <<< 24 =
      d.toNat <<< 24 + (c.toNat <<< 16 + (b.toNat <<< 8 + a.toNat)) := by
    have hlt : c.toNat <<< 16 + (b.toNat <<< 8 + a.toNat) < 2 ^ 24 := by rw [Nat.shiftLeft_eq, Nat.shiftLeft_eq]; omega
    rw [Nat.or_comm, Nat.shiftLeft_add_eq_or_of_lt hlt]
  rw [hlow, hmid, hhigh]
  simp only [Nat.shiftLeft_eq]
  omega

/-- Packing bytes into words keeps the number. -/
theorem wordsValue_packWords : wordsValue (packWords bytes) = bytesValue bytes := by
  induction bytes using packWords.induct with
  | case1 => rfl
  | case2 a => simp [packWords, toNat_wordOfBytes]
  | case3 a b => simp [packWords, toNat_wordOfBytes]
  | case4 a b c => simp [packWords, toNat_wordOfBytes]
  | case5 a b c d rest ih =>
    simp only [packWords, wordsValue_cons, toNat_wordOfBytes, ih, bytesValue_cons]
    omega

theorem length_packWords_le {bytes : List UInt8} {k : Nat} (h : bytes.length ≤ 4 * k) :
    (packWords bytes).length ≤ k := by
  induction bytes using packWords.induct generalizing k with
  | case1 => simp [packWords]
  | case2 a => simp only [packWords, List.length_singleton] at h ⊢; omega
  | case3 a b => simp only [packWords, List.length_cons, List.length_nil] at h ⊢; omega
  | case4 a b c => simp only [packWords, List.length_cons, List.length_nil] at h ⊢; omega
  | case5 a b c d rest ih =>
    simp only [List.length_cons] at h
    have := ih (k := k - 1) (by omega)
    simp only [packWords, List.length_cons]
    omega

def Trimmed (words : List UInt32) : Prop := words = [0] ∨ ∃ low w, words = low ++ [w] ∧ w ≠ 0

/-- Trimming keeps the number. -/
theorem trimWords_spec (words : List UInt32) :
    Trimmed (trimWords words) ∧ wordsValue (trimWords words) = wordsValue words ∧
      (trimWords words).length ≤ max 1 words.length := by
  have hzeros : (words.reverse.takeWhile (· == (0 : UInt32))).reverse =
      List.replicate (words.reverse.takeWhile (· == (0 : UInt32))).length 0 := by
    refine List.eq_replicate_iff.mpr ⟨List.length_reverse, fun w hw => ?_⟩
    simpa using List.mem_takeWhile_imp (List.mem_reverse.mp hw)
  have hwords : (words.reverse.dropWhile (· == (0 : UInt32))).reverse ++
      List.replicate (words.reverse.takeWhile (· == (0 : UInt32))).length 0 = words := by
    rw [← hzeros, ← List.reverse_append, List.takeWhile_append_dropWhile, List.reverse_reverse]
  have hvalue : wordsValue words = wordsValue (words.reverse.dropWhile (· == (0 : UInt32))).reverse := by
    have h := congrArg wordsValue hwords
    rw [wordsValue_append, wordsValue_replicate_zero, Nat.mul_zero, Nat.add_zero] at h
    exact h.symm
  have hlength : (words.reverse.dropWhile (· == (0 : UInt32))).length ≤ words.length := by
    have := (List.dropWhile_sublist (l := words.reverse) (· == (0 : UInt32))).length_le
    rwa [List.length_reverse] at this
  unfold trimWords
  cases hdrop : words.reverse.dropWhile (· == (0 : UInt32)) with
  | nil =>
    rw [hdrop] at hvalue
    exact ⟨Or.inl rfl, by rw [hvalue]; rfl, by simp⟩
  | cons w ws =>
    rw [hdrop] at hvalue hlength
    have hw : (w == (0 : UInt32)) = false := by
      have := List.head?_dropWhile_not (· == (0 : UInt32)) words.reverse
      simpa [hdrop] using this
    refine ⟨Or.inr ⟨ws.reverse, w, by simp, by simpa using hw⟩, hvalue.symm, ?_⟩
    rw [List.length_reverse]
    omega

theorem trimmed_bignumFromBytes : Trimmed (bignumFromBytes bytes) := (trimWords_spec _).1

/-- Leading zeros do not change a number. -/
theorem bytesValue_dropWhile :
    bytesValue (bytes.dropWhile (· == 0)).reverse = bytesValue bytes.reverse := by
  induction bytes with
  | nil => rfl
  | cons b bytes ih =>
    by_cases hb : b = 0
    · subst hb
      have hdrop : ((0 : UInt8) :: bytes).dropWhile (· == 0) = bytes.dropWhile (· == 0) := by simp
      rw [hdrop, ih, List.reverse_cons, bytesValue_append]
      simp
    · have hdrop : (b :: bytes).dropWhile (· == 0) = b :: bytes := by simp [hb]
      rw [hdrop]

/-- A number below 256^k has at most `k` bytes. -/
theorem length_dropWhile_le {bytes : List UInt8} {k : Nat} (h : blockValue bytes < 256 ^ k) :
    (bytes.dropWhile (· == 0)).length ≤ k := by
  rw [blockValue, ← bytesValue_dropWhile] at h
  cases hdrop : bytes.dropWhile (· == (0 : UInt8)) with
  | nil => simp
  | cons b rest =>
    have hb : (b == (0 : UInt8)) = false := by
      have := List.head?_dropWhile_not (· == (0 : UInt8)) bytes
      simpa [hdrop] using this
    have hpos : 0 < b.toNat := by
      rw [Nat.pos_iff_ne_zero]
      intro hzero
      have hb0 : b = 0 := UInt8.toNat_inj.mp hzero
      simp [hb0] at hb
    rw [hdrop, List.reverse_cons, bytesValue_append, List.length_reverse] at h
    have hle : 256 ^ rest.length ≤ 256 ^ rest.length * bytesValue [b] :=
      Nat.le_mul_of_pos_right _ (by simpa using hpos)
    have hlt : 256 ^ rest.length < 256 ^ k := by omega
    exact (Nat.pow_lt_pow_iff_right (by norm_num)).mp hlt

/-- `bignum_from_bytes` keeps every number that its words hold. -/
theorem wordsValue_bignumFromBytes {bytes : List UInt8}
    (h : blockValue bytes < 256 ^ (2 * rsaMaxModulusBytes)) :
    wordsValue (bignumFromBytes bytes) = blockValue bytes := by
  have hlen : (bytes.dropWhile (· == 0)).reverse.length ≤ 4 * (2 * rsaMaxModulusWords) := by
    rw [List.length_reverse]
    exact length_dropWhile_le (k := 2 * rsaMaxModulusBytes) h
  unfold bignumFromBytes
  rw [(trimWords_spec _).2.1, List.take_of_length_le (length_packWords_le hlen),
    wordsValue_packWords,
    bytesValue_dropWhile]
  rfl

theorem blockValue_lt_of_length {bytes : List UInt8} (h : bytes.length ≤ rsaMaxModulusBytes) :
    blockValue bytes < 256 ^ (2 * rsaMaxModulusBytes) := by
  calc blockValue bytes < 256 ^ bytes.length := blockValue_lt bytes
    _ ≤ 256 ^ (2 * rsaMaxModulusBytes) := Nat.pow_le_pow_right (by norm_num) (by omega)

theorem length_bytesOfWord (w : UInt32) : (bytesOfWord w).length = 4 := rfl

theorem bytesValue_bytesOfWord (w : UInt32) : bytesValue (bytesOfWord w) = w.toNat := by
  have hw := w.toNat_lt
  simp only [bytesOfWord, bytesValue_cons, bytesValue_nil, UInt32.toNat_toUInt8,
    UInt32.toNat_shiftRight,
    Nat.shiftRight_eq_div_pow, UInt32.reduceToNat, Nat.reduceMod, Nat.reducePow]
  omega

/-- The bytes of words are those of the number. -/
theorem bytesValue_flatMap (words : List UInt32) :
    bytesValue (words.flatMap bytesOfWord) = wordsValue words := by
  induction words with
  | nil => rfl
  | cons w words ih =>
    rw [List.flatMap_cons, bytesValue_append, bytesValue_bytesOfWord, ih, length_bytesOfWord,
      wordsValue_cons]
    norm_num

/-- `bignum_to_bytes` writes the number into its bytes. -/
theorem bignumToBytes_spec (words : List UInt32) (len : Nat) :
    (bignumToBytes words len).length = len ∧
      blockValue (bignumToBytes words len) = wordsValue words % 256 ^ len := by
  have hle : len ≤ (words.flatMap bytesOfWord ++ List.replicate len 0).length := by simp
  constructor
  · rw [bignumToBytes, List.length_reverse, List.length_take_of_le hle]
  · rw [bignumToBytes, blockValue, List.reverse_reverse, bytesValue_take _ _ hle,
      bytesValue_append, bytesValue_flatMap,
      bytesValue_replicate_zero]
    simp

theorem Trimmed.ne_nil {words : List UInt32} (h : Trimmed words) : words ≠ [] := by
  rcases h with rfl | ⟨low, w, rfl, -⟩
  · simp
  · simp

/-- A trimmed number with more words is larger. -/
theorem Trimmed.lt_of_length_lt {u v : List UInt32} (hu : u ≠ []) (hv : Trimmed v)
    (h : u.length < v.length) :
    wordsValue u < wordsValue v := by
  rcases hv with rfl | ⟨low, w, rfl, hw⟩
  · have := List.length_pos_iff.mpr hu
    simp only [List.length_singleton] at h
    omega
  · calc wordsValue u < wordPow u.length := wordsValue_lt_wordPow u
      _ ≤ 2 ^ (32 * low.length) := Nat.pow_le_pow_right (by norm_num) (by simp at h; omega)
      _ ≤ wordsValue (low ++ [w]) := wordsValue_pos hw

/-- The comparison by words is the comparison of the numbers. -/
theorem input_too_large_iff {number modulus : List UInt32} (hn : Trimmed number)
    (hm : Trimmed modulus) :
    modulus.length < number.length ∨ number.length = modulus.length ∧
      rsaWordsCompare number modulus ≠ .lt ↔
      wordsValue modulus ≤ wordsValue number := by
  rcases Nat.lt_trichotomy number.length modulus.length with hlt | heq | hgt
  · have := hm.lt_of_length_lt hn.ne_nil hlt
    constructor
    · rintro (h | h) <;> omega
    · intro h
      omega
  · rw [rsaWordsCompare_ne_lt heq]
    constructor
    · rintro (h | h)
      · omega
      · exact h.2
    · exact fun h => Or.inr ⟨heq, h⟩
  · have := hn.lt_of_length_lt hm.ne_nil hgt
    exact ⟨fun _ => this.le, fun _ => Or.inl hgt⟩

/-- Padding with zero words keeps the number. -/
theorem wordsValue_padWords (words : Nat) (number : List UInt32) (h : number.length ≤ words) :
    (padWords words number).length = words ∧
      wordsValue (padWords words number) = wordsValue number := by
  unfold padWords
  constructor
  · rw [List.length_append, List.length_replicate]
    omega
  · rw [wordsValue_append, wordsValue_replicate_zero]
    simp

structure GoodKey (key : RsaKeyWords) : Prop where
  trimmed : Trimmed key.n
  words : key.n.length ≤ rsaMaxModulusWords
  odd : wordsValue key.n % 2 = 1

def blockLength (key : RsaKeyWords) : Nat := key.bits.toNat / 8

def signaturePower (key : RsaKeyWords) (signature : List UInt8) : Nat :=
  blockValue signature ^ wordsValue key.e % wordsValue key.n

section

variable {key : RsaKeyWords} (hodd : wordsValue key.n % 2 = 1)
include hodd

theorem ne_nil_of_odd : key.n ≠ [] := by
  intro hnil
  simp [hnil] at hodd

theorem head_odd : (key.n.headD 0).toNat % 2 = 1 := by
  obtain ⟨n0, high, heq⟩ := List.exists_cons_of_ne_nil (ne_nil_of_odd hodd)
  rw [heq, wordsValue_cons] at hodd
  rw [heq, List.headD_cons]
  omega

/-- The guard lets every odd modulus of at most 64 words pass. -/
theorem modulus_guard (hwords : key.n.length ≤ rsaMaxModulusWords) :
    ¬ (key.n.length = 0 ∨ rsaMaxModulusWords < key.n.length ∨ key.n.headD 0 &&& 1 = 0) := by
  have hhead := head_odd hodd
  rintro (h | h | h)
  · exact ne_nil_of_odd hodd (List.length_eq_zero_iff.mp h)
  · omega
  · have h := congrArg UInt32.toNat h
    rw [UInt32.toNat_and] at h
    simp only [UInt32.reduceToNat, Nat.and_one_is_mod] at h
    omega

end

variable {key : RsaKeyWords}

/-- An input that is not below the modulus is refused. -/
theorem rsaMontgomeryModpow_eq_none (hkey : GoodKey key) {input : List UInt8}
    (hlen : input.length ≤ rsaMaxModulusBytes) (hbig : wordsValue key.n ≤ blockValue input) :
    rsaMontgomeryModpow key input = none := by
  have hlarge := (input_too_large_iff (trimmed_bignumFromBytes input) hkey.trimmed).mpr
    (by rw [wordsValue_bignumFromBytes (blockValue_lt_of_length hlen)]; exact hbig)
  simp only [rsaMontgomeryModpow]
  rw [if_neg (modulus_guard hkey.odd hkey.words), if_pos hlarge]

/-- A smaller number has no more words. -/
theorem Trimmed.length_le {number modulus : List UInt32} (hn : Trimmed number) (hne : modulus ≠ [])
    (hlt : wordsValue number < wordsValue modulus) : number.length ≤ modulus.length := by
  by_contra hgt
  have := hn.lt_of_length_lt hne (Nat.not_le.mp hgt)
  omega

/-- The words of the result are those of the power. -/
theorem rsaMontgomeryModpow_result {input : List UInt8} (hwords : key.n.length ≤ rsaMaxModulusWords)
    (hodd : wordsValue key.n % 2 = 1) (hsmall : blockValue input < wordsValue key.n) :
    ∃ result, rsaMontgomeryModpow key input = some (bignumToBytes result (key.bits / 8).toNat) ∧
      wordsValue result = blockValue input ^ wordsValue key.e % wordsValue key.n := by
  have hne := ne_nil_of_odd hodd
  have hpos : 0 < key.n.length := List.length_pos_iff.mpr hne
  have hguard := modulus_guard hodd hwords
  have hbound : blockValue input < 256 ^ (2 * rsaMaxModulusBytes) := by
    calc blockValue input < wordsValue key.n := hsmall
      _ < wordPow key.n.length := wordsValue_lt_wordPow key.n
      _ ≤ wordPow rsaMaxModulusWords := Nat.pow_le_pow_right (by norm_num) (by omega)
      _ ≤ 256 ^ (2 * rsaMaxModulusBytes) := by
          rw [show (256 : Nat) = 2 ^ 8 by norm_num, ← pow_mul]
          exact Nat.pow_le_pow_right (by norm_num) (by decide)
  have hvalue := wordsValue_bignumFromBytes hbound
  have hlength := (trimmed_bignumFromBytes input).length_le hne (by rw [hvalue]; exact hsmall)
  have hfits : ¬ (key.n.length < (bignumFromBytes input).length ∨
      (bignumFromBytes input).length = key.n.length ∧ rsaWordsCompare (bignumFromBytes input) key.n ≠ .lt) := by
    rintro (h | ⟨hlen, h⟩)
    · omega
    · rw [rsaWordsCompare_ne_lt hlen, hvalue] at h
      omega
  have hinv := rsaMontgomeryN0Inverse_spec (head_odd hodd)
  -- the input and one, both times the base power
  obtain ⟨hblen, hbvalue⟩ := wordsValue_padWords key.n.length (bignumFromBytes input) hlength
  obtain ⟨holen, hovalue⟩ := wordsValue_padWords key.n.length [1] hpos
  have hone : wordsValue [1] = 1 := by simp
  rw [hvalue] at hbvalue
  rw [hone] at hovalue
  have hbase := Stands.of_double hblen (by omega)
  have hresult := Stands.of_double holen (by omega)
  rw [hbvalue] at hbase
  rw [hovalue] at hresult
  obtain ⟨state, hstate, hstands⟩ :=
    rsaModpowLoop_spec hne hwords hinv hodd (exponentBits key.e) hresult hbase
  rw [bitsValue_exponentBits, Nat.one_mul] at hstands
  obtain ⟨result, hmul, -, hlt, hmod⟩ := rsaMontgomeryMultiply_spec hne hwords hinv hstands.length_eq holen
    hstands.le (by omega) (by omega)
  refine ⟨result, ?_, ?_⟩
  · simp only [rsaMontgomeryModpow]
    rw [if_neg hguard, if_neg hfits]
    simp only [hstate, hmul, Option.bind_eq_bind, Option.bind_some]
  · have hcop : Nat.gcd (wordsValue key.n) (wordPow key.n.length) = 1 := by
      rw [Nat.gcd_comm]
      exact coprime_wordPow hodd _
    have hmodEq : wordsValue result ≡ blockValue input ^ wordsValue key.e [MOD wordsValue key.n] := by
      refine Nat.ModEq.cancel_right_of_coprime hcop (hmod.trans ?_)
      rw [hovalue, Nat.mul_one]
      exact hstands.modEq
    rw [Nat.ModEq, Nat.mod_eq_of_lt hlt] at hmodEq
    exact hmodEq

/-- The result is the power modulo the modulus, for every exponent. -/
theorem rsaMontgomeryModpow_power (key : RsaKeyWords) (input : List UInt8)
    (hwords : key.n.length ≤ rsaMaxModulusWords) (hodd : wordsValue key.n % 2 = 1)
    (hbase : blockValue input < wordsValue key.n) :
    ∃ result, rsaMontgomeryModpow key input = some (bignumToBytes result (key.bits / 8).toNat) ∧
      wordsValue result = blockValue input ^ wordsValue key.e % wordsValue key.n ∧
      wordsValue result < wordsValue key.n ∧ (wordsValue key.n ≤ 256 ^ (key.bits / 8).toNat →
        blockValue (bignumToBytes result (key.bits / 8).toNat) =
        blockValue input ^ wordsValue key.e % wordsValue key.n) := by
  obtain ⟨result, hmodpow, hvalue⟩ := rsaMontgomeryModpow_result hwords hodd hbase
  have hlt : wordsValue result < wordsValue key.n := by
    rw [hvalue]
    exact Nat.mod_lt _ (by omega)
  refine ⟨result, hmodpow, hvalue, hlt, fun hblock => ?_⟩
  rw [(bignumToBytes_spec result _).2, Nat.mod_eq_of_lt (by omega), hvalue]

/-- A small key. -/
theorem rsaMontgomeryModpow_power_three :
    ∃ result, rsaMontgomeryModpow { n := [3], e := [3], bits := 8 } [2] =
      some (bignumToBytes result 1) ∧
      wordsValue result = 2 ∧ wordsValue result < 3 ∧
      (3 ≤ 256 ^ 1 → blockValue (bignumToBytes result 1) = 2) :=
  rsaMontgomeryModpow_power { n := [3], e := [3], bits := 8 } [2] (by decide) (by decide) (by decide)

/-- The block that a signature opens to is the power of the signature. -/
theorem rsaMontgomeryModpow_eq (hkey : GoodKey key) {input : List UInt8}
    (hsmall : blockValue input < wordsValue key.n) :
    ∃ block, rsaMontgomeryModpow key input = some block ∧ block.length = blockLength key ∧
      blockValue block = signaturePower key input % 256 ^ blockLength key := by
  obtain ⟨result, hmodpow, hvalue⟩ := rsaMontgomeryModpow_result hkey.words hkey.odd hsmall
  obtain ⟨hbytes, hblock⟩ := bignumToBytes_spec result (key.bits / 8).toNat
  have hL : (key.bits / 8).toNat = blockLength key := by
    rw [UInt32.toNat_div]
    rfl
  refine ⟨bignumToBytes result (key.bits / 8).toNat, hmodpow, hbytes.trans hL, ?_⟩
  rw [hblock, hvalue, hL]
  rfl

def paddedBlock (k : Nat) (h : RsaHash) (digest trailing : List UInt8) : List UInt8 :=
  0x00 :: 0x01 :: (List.replicate k 0xFF ++ 0x00 :: (h.digestInfo ++ (digest ++ trailing)))

/-- Three bytes besides the padding, the digest information, the digest and what follows. -/
theorem length_paddedBlock (k : Nat) (h : RsaHash) (digest trailing : List UInt8) :
    (paddedBlock k h digest trailing).length = 3 + k + h.digestInfo.length + digest.length +
      trailing.length := by
  simp only [paddedBlock, List.length_cons, List.length_append, List.length_replicate]
  omega

/-- The zero in front leaves a block's value far below `256 ^ length`. -/
theorem blockValue_paddedBlock_lt (k : Nat) (h : RsaHash) (digest trailing : List UInt8) :
    256 * blockValue (paddedBlock k h digest trailing) <
      256 ^ (paddedBlock k h digest trailing).length := by
  have htail := blockValue_lt (0x01 :: (List.replicate k 0xFF ++ 0x00 :: (h.digestInfo ++ (digest ++ trailing))))
  rw [paddedBlock, blockValue_zero_cons, List.length_cons, pow_succ]
  omega

/-- The padding ends at the first zero. -/
theorem takeWhile_pad (k : Nat) (rest : List UInt8) :
    (List.replicate k 0xFF ++ 0x00 :: rest).takeWhile (· == (0xFF : UInt8)) =
      List.replicate k 0xFF := by
  rw [List.takeWhile_append_of_pos (by intro x hx; simp [List.eq_of_mem_replicate hx])]
  simp

/-- The check of the block passes for padding, prefix and digest, whatever is behind them. -/
theorem pkcs1BlockOk_iff {pre digest rest : List UInt8} : pkcs1BlockOk pre digest rest = true ↔
      ∃ k trailing, 8 ≤ k ∧ rest = List.replicate k 0xFF ++ 0x00 :: (pre ++ (digest ++ trailing)) := by
  constructor
  · intro h
    have hps : rest.takeWhile (· == (0xFF : UInt8)) = List.replicate (rest.takeWhile (· == (0xFF : UInt8))).length 0xFF := by
      refine List.eq_replicate_iff.mpr ⟨rfl, fun x hx => ?_⟩
      simpa using List.mem_takeWhile_imp hx
    have hdrop : rest.takeWhile (· == (0xFF : UInt8)) ++ rest.drop (rest.takeWhile (· == (0xFF : UInt8))).length = rest := by
      conv_rhs => rw [← List.take_append_drop (rest.takeWhile (· == (0xFF : UInt8))).length rest]
      congr 1
      exact List.prefix_iff_eq_take.mp (List.takeWhile_prefix _)
    unfold pkcs1BlockOk at h
    simp only at h
    split at h
    · next t ht =>
        simp only [Bool.and_eq_true, decide_eq_true_eq, beq_iff_eq] at h
        obtain ⟨⟨⟨hk, -⟩, hpre⟩, hdigest⟩ := h
        refine ⟨_, (t.drop pre.length).drop digest.length, hk, ?_⟩
        have ht' : t = pre ++ (digest ++ (t.drop pre.length).drop digest.length) := by
          conv_lhs => rw [← List.take_append_drop pre.length t, hpre]
          congr 1
          conv_lhs => rw [← List.take_append_drop digest.length (t.drop pre.length), hdigest]
        rw [ht] at hdrop
        rw [← hps, ← ht']
        exact hdrop.symm
    · simp at h
  · rintro ⟨k, trailing, hk, rfl⟩
    unfold pkcs1BlockOk
    simp only [takeWhile_pad, List.length_replicate]
    have hdrop : (List.replicate k (0xFF : UInt8) ++ 0x00 :: (pre ++ (digest ++ trailing))).drop k =
        0x00 :: (pre ++ (digest ++ trailing)) := by
      rw [List.drop_left' (by simp)]
    rw [hdrop]
    simp [hk]

/-- A signature is accepted if it opens to such a block. -/
theorem rsaVerifySignature_iff (hkey : GoodKey key) {signature digest : List UInt8} {h : RsaHash} :
    rsaVerifySignature key signature digest h = true ↔
      (signature.length = blockLength key ∧ blockLength key ≤ rsaMaxModulusBytes ∧
        digest.length = h.digestSize ∧
        blockValue signature < wordsValue key.n) ∧
      ∃ k trailing, 8 ≤ k ∧ (paddedBlock k h digest trailing).length = blockLength key ∧
        blockValue (paddedBlock k h digest trailing) =
        signaturePower key signature % 256 ^ blockLength key := by
  unfold rsaVerifySignature rsaVerifyPkcs1V15 rsaPublicDecrypt
  rw [show key.pubkey.bits / 8 = blockLength key from rfl]
  by_cases hsig : signature.length = blockLength key
  · by_cases hdig : digest.length = h.digestSize
    · by_cases hmax : blockLength key ≤ rsaMaxModulusBytes
      · rw [if_neg (not_not.mpr hsig), if_neg (not_not.mpr hdig), if_neg (not_not.mpr hsig),
          if_neg (Nat.not_lt.mpr hmax)]
        by_cases hsmall : blockValue signature < wordsValue key.n
        · obtain ⟨block, hblock, hblen, hbvalue⟩ := rsaMontgomeryModpow_eq hkey hsmall
          simp only [hblock]
          constructor
          · intro hok
            refine ⟨⟨hsig, hmax, hdig, hsmall⟩, ?_⟩
            split at hok
            · next rest hrest =>
                obtain ⟨k, trailing, hk, heq⟩ := pkcs1BlockOk_iff.mp hok
                have hpad : block = paddedBlock k h digest trailing := by
                  rw [Option.some.inj hrest, heq]
                  rfl
                exact ⟨k, trailing, hk, hpad ▸ hblen, hpad ▸ hbvalue⟩
            · simp at hok
          · rintro ⟨-, k, trailing, hk, hlen, hvalue⟩
            -- the block is the one with the right length and value
            have hpad : block = paddedBlock k h digest trailing := by
              have hrev := bytesValue_inj (u := block.reverse) (v := (paddedBlock k h digest trailing).reverse)
                (by rw [List.length_reverse, List.length_reverse, hblen, hlen]) (hbvalue.trans hvalue.symm)
              exact List.reverse_injective hrev
            rw [hpad]
            exact pkcs1BlockOk_iff.mpr ⟨k, trailing, hk, rfl⟩
        · have hnone := rsaMontgomeryModpow_eq_none hkey (hsig ▸ hmax) (Nat.not_lt.mp hsmall)
          simp [hnone, hsmall]
      · rw [if_neg (not_not.mpr hsig), if_neg (not_not.mpr hdig), if_neg (not_not.mpr hsig),
          if_pos (Nat.not_le.mp hmax)]
        simp [hmax]
    · rw [if_neg (not_not.mpr hsig), if_pos hdig]
      simp [hdig]
  · rw [if_pos hsig]
    simp [hsig]

def SignatureExact (key : RsaKeyWords) (signature digest : List UInt8) (h : RsaHash) : Prop :=
  rsaVerifySignature key signature digest h = true → ∃ k, 8 ≤ k ∧ (paddedBlock k h digest []).length = blockLength key ∧
      blockValue (paddedBlock k h digest []) = signaturePower key signature

/-- A signature that passes all checks although bytes follow the digest, or although the power does
not fit into the block.  The second happens for a modulus in a buffer of 2^29 bytes or more only,
where `bits` overflows. -/
structure LooseSignature (key : RsaKeyWords) (signature digest : List UInt8) (h : RsaHash) : Prop where
  signature_length : signature.length = blockLength key
  fits : blockLength key ≤ rsaMaxModulusBytes
  digest_length : digest.length = h.digestSize
  below : blockValue signature < wordsValue key.n
  block : ∃ k trailing, 8 ≤ k ∧ (paddedBlock k h digest trailing).length = blockLength key ∧
    blockValue (paddedBlock k h digest trailing) = signaturePower key signature % 256 ^ blockLength key ∧
    (trailing ≠ [] ∨ 256 ^ blockLength key ≤ signaturePower key signature)

/-- A block determines what is behind the digest. -/
theorem paddedBlock_inj {k l : Nat} {h : RsaHash} {digest trailing trailing' : List UInt8}
    (heq : paddedBlock k h digest trailing = paddedBlock l h digest trailing') :
    k = l ∧ trailing = trailing' := by
  simp only [paddedBlock, List.cons.injEq, true_and] at heq
  have hk := congrArg (List.takeWhile (· == (0xFF : UInt8))) heq
  rw [takeWhile_pad, takeWhile_pad] at hk
  have hkl : k = l := by
    have := congrArg List.length hk
    simpa using this
  subst hkl
  exact ⟨rfl, by simpa using heq⟩

/-- The verification is exact unless the accepted block has bytes behind the digest. -/
theorem signatureExact_iff_not_loose (hkey : GoodKey key) (signature digest : List UInt8)
    (h : RsaHash) :
    SignatureExact key signature digest h ↔ ¬ LooseSignature key signature digest h := by
  constructor
  · rintro hexact ⟨hsig, hfits, hdig, hsmall, k, trailing, hk, hlen, hvalue, hloose⟩
    obtain ⟨l, -, hlen', hvalue'⟩ := hexact ((rsaVerifySignature_iff hkey).mpr
      ⟨⟨hsig, hfits, hdig, hsmall⟩, k, trailing, hk, hlen, hvalue⟩)
    have hpower : signaturePower key signature < 256 ^ blockLength key := by
      rw [← hvalue', ← hlen']
      exact blockValue_lt _
    rw [Nat.mod_eq_of_lt hpower, ← hvalue'] at hvalue
    have hrev := bytesValue_inj (u := (paddedBlock k h digest trailing).reverse) (v := (paddedBlock l h digest []).reverse)
      (by rw [List.length_reverse, List.length_reverse, hlen, hlen']) hvalue
    obtain ⟨-, htrailing⟩ := paddedBlock_inj (List.reverse_injective hrev)
    rcases hloose with hne | hge
    · exact hne htrailing
    · omega
  · intro hnot hok
    obtain ⟨⟨hsig, hfits, hdig, hsmall⟩, k, trailing, hk, hlen, hvalue⟩ :=
      (rsaVerifySignature_iff hkey).mp hok
    have hstrict : trailing = [] ∧ signaturePower key signature < 256 ^ blockLength key := by
      by_contra hcon
      rw [not_and_or, Nat.not_lt] at hcon
      exact hnot ⟨hsig, hfits, hdig, hsmall, k, trailing, hk, hlen, hvalue, hcon⟩
    obtain ⟨rfl, hpower⟩ := hstrict
    rw [Nat.mod_eq_of_lt hpower] at hvalue
    exact ⟨k, hk, hlen, hvalue⟩

/-- A key that `rsa_pubkey_init` has made. -/
theorem goodKey_rsaPubkeyInit {modulus exponent : List UInt8}
    (hodd : wordsValue (rsaPubkeyInit modulus exponent).n % 2 = 1)
    (hwords : (rsaPubkeyInit modulus exponent).n.length ≤ rsaMaxModulusWords) :
    GoodKey (rsaPubkeyInit modulus exponent) :=
  ⟨trimmed_bignumFromBytes modulus, hwords, hodd⟩

/-- Exactly the accepted blocks with nothing behind the digest are proper signatures. -/
theorem signatureExact_iff (modulus exponent : List UInt8)
    (hodd : wordsValue (rsaPubkeyInit modulus exponent).n % 2 = 1)
    (hwords : (rsaPubkeyInit modulus exponent).n.length ≤ rsaMaxModulusWords)
    (signature digest : List UInt8) (h : RsaHash) :
    SignatureExact (rsaPubkeyInit modulus exponent) signature digest h ↔
      ¬ LooseSignature (rsaPubkeyInit modulus exponent) signature digest h :=
  signatureExact_iff_not_loose (goodKey_rsaPubkeyInit hodd hwords) signature digest h

def forgeModulus : List UInt8 := List.replicate 136 0xFF

def forgedSignature : List UInt8 :=
  List.replicate 91 0 ++
    [ 0x32, 0xCB, 0xFD, 0x4A, 0x7A, 0xDC, 0x79, 0x05, 0x58, 0x3D, 0x75, 0xE5, 0x34, 0x49, 0xA1, 0x2F, 0xE2,
      0xA5, 0x53, 0x0A, 0xBD, 0x4F, 0xD5, 0xB1, 0xDD, 0xCC, 0xEE, 0x0F, 0x89, 0xA7, 0x9B, 0xAA, 0xF9, 0xA4,
      0x86, 0xDB, 0x69, 0x10, 0xF5, 0xE1, 0x5C, 0x27, 0x11, 0x65, 0x1A]

def forgedTrailing : List UInt8 :=
    [ 0x00, 0x16, 0xA6, 0x65, 0xEF, 0x79, 0xD7, 0x24, 0x0A, 0xE2, 0x66, 0x55, 0x18, 0xB6, 0x9C, 0x61, 0x23,
      0x46, 0xD1, 0x26, 0x5A, 0x39, 0xC0, 0xC8, 0x58, 0x10, 0x73, 0x2D, 0x0B, 0x3A, 0xA0, 0xCE, 0x4F, 0x6E,
      0x7A, 0x93, 0x4E, 0x6F, 0x75, 0x95, 0x00, 0xAC, 0x98, 0x53, 0xF9, 0xB9, 0x88, 0xA7, 0xA3, 0x08, 0x80,
      0x38, 0x17, 0x99, 0x59, 0xF7, 0x76, 0x91, 0x9F, 0x62, 0x2D, 0x02, 0xA5, 0xA7, 0xB3, 0x1E, 0xE6, 0x5E,
      0x84, 0xF5, 0x60, 0x83, 0x6E, 0x17, 0x2E, 0x70, 0x80, 0x62, 0x73, 0x13, 0xEB, 0x2D, 0xE3, 0x61, 0x46,
      0x92, 0x7D, 0x8A, 0xEA, 0x60, 0xA8]

theorem wordsValue_forgeKey :
    wordsValue (rsaPubkeyInit forgeModulus [3]).n = 256 ^ 136 - 1 ∧
      wordsValue (rsaPubkeyInit forgeModulus [3]).e = 3 := by
  constructor
  · rw [show (rsaPubkeyInit forgeModulus [3]).n = bignumFromBytes forgeModulus from rfl,
      wordsValue_bignumFromBytes (blockValue_lt_of_length (by simp [forgeModulus, rsaMaxModulusBytes]))]
    decide +kernel
  · rw [show (rsaPubkeyInit forgeModulus [3]).e = bignumFromBytes [3] from rfl,
      wordsValue_bignumFromBytes (blockValue_lt_of_length (by decide))]
    decide

/-- The example key's block has 136 bytes. -/
theorem blockLength_forgeKey (exponent : List UInt8) :
    blockLength (rsaPubkeyInit forgeModulus exponent) = 136 := by
  have hlength : forgeModulus.length = 136 := List.length_replicate
  rw [blockLength, show (rsaPubkeyInit forgeModulus exponent).bits = UInt32.ofNat forgeModulus.length * 8 from rfl, hlength]
  rfl

/-- The example key is a good one. -/
theorem goodKey_forge : GoodKey (rsaPubkeyInit forgeModulus [3]) :=
  goodKey_rsaPubkeyInit (by rw [wordsValue_forgeKey.1]; decide) (by decide)

theorem wordsValue_plainKey :
    wordsValue (rsaPubkeyInit forgeModulus [1]).n = 256 ^ 136 - 1 ∧
      wordsValue (rsaPubkeyInit forgeModulus [1]).e = 1 := by
  refine ⟨wordsValue_forgeKey.1, ?_⟩
  rw [show (rsaPubkeyInit forgeModulus [1]).e = bignumFromBytes [1] from rfl,
    wordsValue_bignumFromBytes (blockValue_lt_of_length (by decide))]
  decide

/-- With the exponent 1 the block is its own signature. -/
def plainSignature : List UInt8 := paddedBlock 99 .md5 (List.replicate 16 7) []

theorem length_plainSignature : plainSignature.length = 136 := by
  rw [plainSignature, length_paddedBlock]
  rfl

theorem plainSignature_lt : blockValue plainSignature < 256 ^ 136 - 1 := by
  have h := blockValue_paddedBlock_lt 99 .md5 (List.replicate 16 7) []
  rw [← plainSignature, length_plainSignature] at h
  omega

/-- With exponent 1 the signature is the block itself. -/
theorem signaturePower_plainSignature :
    signaturePower (rsaPubkeyInit forgeModulus [1]) plainSignature = blockValue plainSignature := by
  rw [signaturePower, wordsValue_plainKey.1, wordsValue_plainKey.2, pow_one]
  exact Nat.mod_eq_of_lt plainSignature_lt

/-- A block of the right form is accepted, and nothing but such a block. -/
theorem signatureExact_plain :
    rsaVerifySignature (rsaPubkeyInit forgeModulus [1]) plainSignature (List.replicate 16 7) .md5 =
      true ∧
      SignatureExact (rsaPubkeyInit forgeModulus [1]) plainSignature
        (List.replicate 16 7) .md5 := by
  have hodd : wordsValue (rsaPubkeyInit forgeModulus [1]).n % 2 = 1 := by
    rw [wordsValue_plainKey.1]
    decide
  have hL := blockLength_forgeKey [1]
  have hlt : blockValue plainSignature < 256 ^ 136 :=
    length_plainSignature ▸ blockValue_lt plainSignature
  constructor
  · refine (rsaVerifySignature_iff (goodKey_rsaPubkeyInit hodd (by decide))).mpr
      ⟨⟨?_, ?_, by decide, ?_⟩, 99, [], by decide, ?_, ?_⟩
    · rw [hL, length_plainSignature]
    · rw [hL]
      decide
    · rw [wordsValue_plainKey.1]
      exact plainSignature_lt
    · rw [hL]
      exact length_plainSignature
    · rw [hL, signaturePower_plainSignature, Nat.mod_eq_of_lt hlt]
      rfl
  · rw [signatureExact_iff forgeModulus [1] hodd (by decide) plainSignature (List.replicate 16 7) .md5]
    rintro ⟨-, -, -, -, k, trailing, -, hlen, hvalue, hloose⟩
    rw [hL] at hlen hvalue hloose
    rw [signaturePower_plainSignature] at hvalue hloose
    rw [Nat.mod_eq_of_lt hlt] at hvalue
    have hrev := bytesValue_inj (u := (paddedBlock k .md5 (List.replicate 16 7) trailing).reverse)
      (v := plainSignature.reverse) (by rw [List.length_reverse, List.length_reverse, hlen, length_plainSignature]) hvalue
    obtain ⟨-, htrailing⟩ := paddedBlock_inj (List.reverse_injective hrev)
    rcases hloose with hne | hge
    · exact hne htrailing
    · exact absurd hlt (Nat.not_lt.mpr hge)

/-- With exponent 3 a block with bytes behind the digest is a cube. -/
theorem not_signatureExact_forged :
    rsaVerifySignature (rsaPubkeyInit forgeModulus [3]) forgedSignature
      (List.replicate 16 0) .md5 = true ∧
      ¬ SignatureExact (rsaPubkeyInit forgeModulus [3]) forgedSignature
        (List.replicate 16 0) .md5 := by
  have hL := blockLength_forgeKey [3]
  have hpower : signaturePower (rsaPubkeyInit forgeModulus [3]) forgedSignature =
      blockValue (paddedBlock 8 .md5 (List.replicate 16 0) forgedTrailing) := by
    rw [signaturePower, wordsValue_forgeKey.1, wordsValue_forgeKey.2]
    decide +kernel
  have hpad : (paddedBlock 8 .md5 (List.replicate 16 0) forgedTrailing).length = 136 := by
    rw [length_paddedBlock]
    rfl
  have hfit : blockValue (paddedBlock 8 .md5 (List.replicate 16 0) forgedTrailing) < 256 ^ 136 := by
    rw [← hpad]
    exact blockValue_lt _
  have hloose : LooseSignature (rsaPubkeyInit forgeModulus [3]) forgedSignature (List.replicate 16 0) .md5 := by
    refine ⟨by rw [hL]; rfl, by rw [hL]; decide, by decide, ?_, 8, forgedTrailing, le_rfl, ?_, ?_, Or.inl (by decide)⟩
    · rw [wordsValue_forgeKey.1]
      decide +kernel
    · rw [hL, hpad]
    · rw [hL, hpower, Nat.mod_eq_of_lt hfit]
  refine ⟨?_, fun hexact => (signatureExact_iff_not_loose goodKey_forge _ _ _).mp hexact hloose⟩
  exact (rsaVerifySignature_iff goodKey_forge).mpr ⟨⟨hloose.signature_length, hloose.fits, hloose.digest_length, hloose.below⟩,
    8, forgedTrailing, le_rfl, by rw [hL, hpad], by rw [hL, hpower, Nat.mod_eq_of_lt hfit]⟩

end Monios.Analysis
