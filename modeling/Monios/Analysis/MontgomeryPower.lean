import Monios.Model.Rsa
import Mathlib.Data.List.GetD
import Mathlib.Data.Nat.Prime.Basic

/-!
# What the word loops of `rsa.c` compute

One lemma for each loop: comparison, subtraction, doubling, and the row of a product with its carry.
All are equations between values, with the carry that leaves the last word on one side.
-/

set_option autoImplicit false

namespace Monios.Analysis

open Monios.Library Monios.Model

variable {left right : List UInt32}

abbrev wordPow (n : Nat) : Nat := 2 ^ (32 * n)

theorem wordPow_succ (n : Nat) : wordPow (n + 1) = 2 ^ 32 * wordPow n := by
  rw [wordPow, wordPow, Nat.mul_add, Nat.pow_add, Nat.mul_comm]

/-- A number of `k` words is below 2^(32k). -/
theorem wordsValue_lt_wordPow (words : List UInt32) : wordsValue words < wordPow words.length :=
  wordsValue_lt words

/-- The comparison of words is the comparison of numbers. -/
theorem rsaWordsCompare_eq (h : left.length = right.length) :
    rsaWordsCompare left right = compare (wordsValue left) (wordsValue right) := by
  induction left generalizing right with
  | nil =>
    obtain rfl : right = [] := List.length_eq_zero_iff.mp h.symm
    rfl
  | cons l left ih =>
    cases right with
    | nil => simp at h
    | cons r right =>
      have hl := l.toNat_lt
      have hr := r.toNat_lt
      simp only [rsaWordsCompare, ih (by simpa using h), wordsValue_cons]
      rcases Nat.lt_trichotomy (wordsValue left) (wordsValue right) with hlt | heq | hgt
      · have hall : l.toNat + 2 ^ 32 * wordsValue left < r.toNat + 2 ^ 32 * wordsValue right := by
          omega
        rw [Nat.compare_eq_lt.mpr hlt, Nat.compare_eq_lt.mpr hall]
        rfl
      · -- equal above the lowest word
        rw [heq, Nat.compare_eq_eq.mpr rfl]
        simp only [Ordering.then]
        rcases Nat.lt_trichotomy l.toNat r.toNat with hlt | heq' | hgt
        · rw [Nat.compare_eq_lt.mpr hlt, Nat.compare_eq_lt.mpr (Nat.add_lt_add_right hlt _)]
        · rw [heq', Nat.compare_eq_eq.mpr rfl, Nat.compare_eq_eq.mpr rfl]
        · rw [Nat.compare_eq_gt.mpr hgt, Nat.compare_eq_gt.mpr (Nat.add_lt_add_right hgt _)]
      · have hall : r.toNat + 2 ^ 32 * wordsValue right < l.toNat + 2 ^ 32 * wordsValue left := by
          omega
        rw [Nat.compare_eq_gt.mpr hgt, Nat.compare_eq_gt.mpr hall]
        rfl

theorem rsaWordsCompare_ne_lt (h : left.length = right.length) :
    rsaWordsCompare left right ≠ .lt ↔ wordsValue right ≤ wordsValue left := by
  rw [rsaWordsCompare_eq h, ne_eq, Nat.compare_eq_lt, Nat.not_lt]

@[simp] theorem length_rsaWordsSub (borrow : UInt64) (h : left.length = right.length) :
    (rsaWordsSub borrow left right).length = left.length := by
  induction left generalizing right borrow with
  | nil => rfl
  | cons l left ih =>
    cases right with
    | nil => simp at h
    | cons r right => simp [rsaWordsSub, ih _ (by simpa using h)]

/-- One word of a subtraction with borrow. -/
theorem sub_word (l r : UInt32) {borrow : UInt64} (hb : borrow.toNat ≤ 1) :
    (l.toUInt64 - (r.toUInt64 + borrow)).toUInt32.toNat + r.toNat + borrow.toNat =
      l.toNat + 2 ^ 32 * (if l.toUInt64 < r.toUInt64 + borrow then 1 else 0 : UInt64).toNat := by
  have hl := l.toNat_lt
  have hr := r.toNat_lt
  have hsum : (r.toUInt64 + borrow).toNat = r.toNat + borrow.toNat := by
    rw [UInt64.toNat_add, UInt32.toNat_toUInt64, Nat.mod_eq_of_lt (by omega)]
  rw [UInt64.toNat_toUInt32, UInt64.toNat_sub, hsum, UInt32.toNat_toUInt64]
  split
  · next hlt =>
      rw [UInt64.lt_iff_toNat_lt, hsum, UInt32.toNat_toUInt64] at hlt
      simp only [UInt64.reduceToNat]
      omega
  · next hge =>
      rw [UInt64.lt_iff_toNat_lt, hsum, UInt32.toNat_toUInt64] at hge
      simp only [UInt64.reduceToNat]
      omega

/-- A subtraction with its last borrow. -/
theorem wordsValue_rsaWordsSub_borrow (borrow : UInt64) (hb : borrow.toNat ≤ 1)
    (h : left.length = right.length) :
    ∃ out ≤ 1, wordsValue (rsaWordsSub borrow left right) + wordsValue right + borrow.toNat =
      wordsValue left + wordPow left.length * out := by
  induction left generalizing right borrow with
  | nil =>
    obtain rfl : right = [] := List.length_eq_zero_iff.mp h.symm
    exact ⟨borrow.toNat, hb, by simp [rsaWordsSub, wordPow]⟩
  | cons l left ih =>
    cases right with
    | nil => simp at h
    | cons r right =>
      have hword := sub_word l r hb
      have hnext : (if l.toUInt64 < r.toUInt64 + borrow then 1 else 0 : UInt64).toNat ≤ 1 := by
        split <;> simp
      obtain ⟨out, hout, heq⟩ := ih _ hnext (by simpa using h)
      refine ⟨out, hout, ?_⟩
      simp only [rsaWordsSub, wordsValue_cons, List.length_cons, wordPow_succ, Nat.mul_assoc]
      omega

/-- A subtraction whose borrow is paid by a carry. -/
theorem wordsValue_rsaWordsSub (carry : Nat) (h : left.length = right.length)
    (hle : wordsValue right ≤ wordsValue left + wordPow left.length * carry)
    (hfit : wordsValue left + wordPow left.length * carry < wordsValue right +
      wordPow left.length) :
    wordsValue (rsaWordsSub 0 left right) = wordsValue left +
      wordPow left.length * carry - wordsValue right := by
  obtain ⟨out, -, heq⟩ := wordsValue_rsaWordsSub_borrow 0 (by simp) h
  have hlt : wordsValue (rsaWordsSub 0 left right) < wordPow left.length := by
    have := wordsValue_lt_wordPow (rsaWordsSub 0 left right)
    rwa [length_rsaWordsSub 0 h] at this
  simp only [UInt64.reduceToNat, Nat.add_zero] at heq
  -- the two values differ by a multiple of the base power and both lie below it
  have hout : out = carry := by
    rcases Nat.lt_trichotomy out carry with hoc | hoc | hoc
    · have := Nat.mul_le_mul_left (wordPow left.length) hoc
      simp only [Nat.succ_eq_add_one, Nat.mul_add, Nat.mul_one] at this
      omega
    · exact hoc
    · have := Nat.mul_le_mul_left (wordPow left.length) hoc
      simp only [Nat.succ_eq_add_one, Nat.mul_add, Nat.mul_one] at this
      omega
  subst hout
  omega

@[simp] theorem length_rsaWordsShift (carry : UInt32) (value : List UInt32) :
    (rsaWordsShift carry value).1.length = value.length := by
  induction value generalizing carry with
  | nil => rfl
  | cons v value ih => simp [rsaWordsShift, ih]

/-- One word of a doubling. -/
theorem shift_word (v : UInt32) {carry : UInt32} (hc : carry.toNat ≤ 1) :
    (v <<< 1 ||| carry).toNat + 2 ^ 32 * (v >>> 31).toNat = 2 * v.toNat + carry.toNat ∧
      (v >>> 31).toNat ≤ 1 := by
  have hv := v.toNat_lt
  have hshift : (v <<< 1).toNat = (v.toNat % 2 ^ 31) <<< 1 := by
    rw [UInt32.toNat_shiftLeft, Nat.shiftLeft_eq, Nat.shiftLeft_eq]
    simp only [UInt32.reduceToNat, Nat.reduceMod, Nat.reducePow]
    omega
  have hor : (v <<< 1 ||| carry).toNat = (v.toNat % 2 ^ 31) <<< 1 + carry.toNat := by
    rw [UInt32.toNat_or, hshift, Nat.shiftLeft_add_eq_or_of_lt (by omega)]
  rw [hor, UInt32.toNat_shiftRight, Nat.shiftLeft_eq, Nat.shiftRight_eq_div_pow]
  simp only [UInt32.reduceToNat, Nat.reduceMod, Nat.reducePow]
  omega

/-- A doubling with its carry. -/
theorem wordsValue_rsaWordsShift (carry : UInt32) (hc : carry.toNat ≤ 1) (value : List UInt32) :
    wordsValue (rsaWordsShift carry value).1 +
      wordPow value.length * (rsaWordsShift carry value).2.toNat =
      2 * wordsValue value + carry.toNat := by
  induction value generalizing carry with
  | nil => simp [rsaWordsShift, wordPow]
  | cons v value ih =>
    obtain ⟨hword, hnext⟩ := shift_word v hc
    have hrest := ih _ hnext
    simp only [rsaWordsShift, wordsValue_cons, List.length_cons, wordPow_succ, Nat.mul_assoc]
    omega

/-- Doubling and subtracting once is doubling modulo the modulus. -/
theorem rsaWordsDoubleMod_spec {modulus value : List UInt32} (h : value.length = modulus.length)
    (hle : wordsValue value ≤ wordsValue modulus) :
    (rsaWordsDoubleMod modulus value).length = modulus.length ∧
      wordsValue (rsaWordsDoubleMod modulus value) ≤ wordsValue modulus ∧
      wordsValue (rsaWordsDoubleMod modulus value) ≡ 2 * wordsValue value [MOD wordsValue modulus] := by
  have hshift := wordsValue_rsaWordsShift 0 (by simp) value
  have hmod := wordsValue_lt_wordPow modulus
  have hlen : (rsaWordsShift 0 value).1.length = modulus.length := by simp [h]
  simp only [UInt32.reduceToNat, Nat.add_zero, h] at hshift
  have hlt := wordsValue_lt_wordPow (rsaWordsShift 0 value).1
  rw [hlen] at hlt
  simp only [rsaWordsDoubleMod]
  split
  · next hc =>
      have hge : wordsValue modulus ≤
          wordsValue (rsaWordsShift 0 value).1 + wordPow modulus.length * (rsaWordsShift 0 value).2.toNat := by
        rcases hc with hc | hc
        · have hpos : 1 ≤ (rsaWordsShift 0 value).2.toNat :=
            Nat.one_le_iff_ne_zero.mpr fun hz => hc (UInt32.toNat_inj.mp hz)
          have := Nat.mul_le_mul_left (wordPow modulus.length) hpos
          omega
        · have := (rsaWordsCompare_ne_lt hlen).mp hc
          omega
      have hsub := wordsValue_rsaWordsSub (rsaWordsShift 0 value).2.toNat hlen (by rwa [hlen]) (by rw [hlen]; omega)
      rw [hlen, hshift] at hsub
      rw [hsub, length_rsaWordsSub 0 hlen]
      refine ⟨hlen, by omega, ?_⟩
      exact ((Nat.modEq_iff_dvd' (by omega)).mpr ⟨1, by omega⟩)
  · next hc =>
      obtain ⟨hcarry, hcmp⟩ := not_or.mp hc
      have hcarry := not_not.mp hcarry
      have hvalue : wordsValue (rsaWordsShift 0 value).1 < wordsValue modulus :=
        Nat.not_le.mp fun hnot => hcmp ((rsaWordsCompare_ne_lt hlen).mpr hnot)
      simp only [hcarry, UInt32.reduceToNat, Nat.mul_zero, Nat.add_zero] at hshift
      exact ⟨hlen, by omega, by rw [hshift]⟩

@[simp] theorem length_addCarry (product : List UInt32) (carry : UInt64) :
    (addCarry product carry).1.length = product.length := by
  induction product generalizing carry with
  | nil => rfl
  | cons p product ih =>
    unfold addCarry
    split
    · rfl
    · simp [ih]

/-- A product with its carries fits into 64 bits and is split in two words. -/
theorem split_word {value : UInt64} {sum : Nat} (hsum : value.toNat = sum) :
    value.toUInt32.toNat + 2 ^ 32 * (value >>> 32).toNat = sum := by
  rw [UInt64.toNat_toUInt32, UInt64.toNat_shiftRight, Nat.shiftRight_eq_div_pow, hsum]
  exact Nat.mod_add_div _ _

theorem carry_lt (value : UInt64) : (value >>> 32).toNat < 2 ^ 32 := by
  have hv := value.toNat_lt
  rw [UInt64.toNat_shiftRight, Nat.shiftRight_eq_div_pow]
  simp only [UInt64.reduceToNat, Nat.reduceMod, Nat.reducePow]
  omega

/-- A carry is added to the words behind. -/
theorem wordsValue_addCarry (product : List UInt32) {carry : UInt64} (hc : carry.toNat < 2 ^ 32) :
    wordsValue (addCarry product carry).1 +
      wordPow product.length * (addCarry product carry).2.toNat =
      wordsValue product + carry.toNat := by
  induction product generalizing carry with
  | nil => simp [addCarry, wordPow]
  | cons p product ih =>
    unfold addCarry
    split
    · next hzero => simp [hzero]
    · have hp := p.toNat_lt
      have hsum : (p.toUInt64 + carry).toNat = p.toNat + carry.toNat := by
        rw [UInt64.toNat_add, UInt32.toNat_toUInt64, Nat.mod_eq_of_lt (by omega)]
      have hword := split_word hsum
      have hrest := ih (carry_lt (p.toUInt64 + carry))
      simp only [wordsValue_cons, List.length_cons, wordPow_succ, Nat.mul_assoc]
      omega

theorem length_mulAddWords (x : UInt32) (right product : List UInt32)
    (h : right.length ≤ product.length) (carry : UInt64) :
    (mulAddWords x right product carry).1.length = product.length := by
  induction right generalizing product carry with
  | nil => simp [mulAddWords]
  | cons r right ih =>
    cases product with
    | nil => simp at h
    | cons p product => simp [mulAddWords, ih product (by simpa using h)]

/-- One word of a product with the word that is there and the carry. -/
theorem mul_add_word (x r p : UInt32) {carry : UInt64} (hc : carry.toNat < 2 ^ 32) :
    (x.toUInt64 * r.toUInt64 + p.toUInt64 + carry).toNat = x.toNat * r.toNat + p.toNat +
      carry.toNat := by
  have hx := x.toNat_lt
  have hr := r.toNat_lt
  have hp := p.toNat_lt
  have hmul : x.toNat * r.toNat ≤ (2 ^ 32 - 1) * (2 ^ 32 - 1) :=
    Nat.mul_le_mul (by omega) (by omega)
  rw [UInt64.toNat_add, UInt64.toNat_add, UInt64.toNat_mul]
  simp only [UInt32.toNat_toUInt64]
  rw [Nat.mod_eq_of_lt (a := x.toNat * r.toNat) (by omega),
    Nat.mod_eq_of_lt (a := x.toNat * r.toNat + p.toNat) (by omega),
    Nat.mod_eq_of_lt (by omega)]

/-- A row of a product is added to what is there. -/
theorem wordsValue_mulAddWords (x : UInt32) (right product : List UInt32)
    (h : right.length ≤ product.length) (carry : UInt64) (hc : carry.toNat < 2 ^ 32) :
    wordsValue (mulAddWords x right product carry).1 +
        wordPow product.length * (mulAddWords x right product carry).2.toNat =
      wordsValue product + x.toNat * wordsValue right + carry.toNat := by
  induction right generalizing product carry with
  | nil => simpa [mulAddWords] using wordsValue_addCarry product hc
  | cons r right ih =>
    cases product with
    | nil => simp at h
    | cons p product =>
      have hword := split_word (mul_add_word x r p hc)
      have hrest := ih product (by simpa using h) _ (carry_lt (x.toUInt64 * r.toUInt64 + p.toUInt64 + carry))
      simp only [mulAddWords, wordsValue_cons, List.length_cons, wordPow_succ, Nat.mul_assoc,
        Nat.mul_add,
        Nat.mul_left_comm x.toNat (2 ^ 32)]
      omega

/-- With room for the sum no carry is lost. -/
theorem mulAddWords_fits (x : UInt32) (right product : List UInt32)
    (h : right.length ≤ product.length)
    (hfit : wordsValue product + x.toNat * wordsValue right < wordPow product.length) :
    (mulAddWords x right product 0).2 = 0 ∧
      wordsValue (mulAddWords x right product 0).1 = wordsValue product +
      x.toNat * wordsValue right := by
  have hrow := wordsValue_mulAddWords x right product h 0 (by simp)
  simp only [UInt64.reduceToNat, Nat.add_zero] at hrow
  have hzero : (mulAddWords x right product 0).2.toNat = 0 := by
    by_contra hne
    have := Nat.mul_le_mul_left (wordPow product.length) (Nat.one_le_iff_ne_zero.mpr hne)
    omega
  rw [hzero] at hrow
  exact ⟨UInt64.toNat_inj.mp hzero, by simpa using hrow⟩

end Monios.Analysis

/-!
# Montgomery exponentiation computes the power

`rsa_montgomery_multiply` returns the product divided by the base power `R` modulo the number, and
is below the number when its factors are at most the number (`rsaMontgomeryMultiply_spec`). Through
the loop over the exponent the two numbers stand for powers of the input times `R`
(`rsaModpowLoop_spec`); the last multiplication by one takes `R` away.
-/

namespace Monios.Analysis

open Monios.Library Monios.Model

/-- A round of Newton's iteration doubles the number of right bits. -/
theorem newton_round {m y : Int} (h : m ∣ y - 1) : m * m ∣ y * (2 - y) - 1 := by
  obtain ⟨q, hq⟩ := h
  obtain rfl : y = 1 + m * q := by omega
  exact ⟨-(q * q), by ring⟩

theorem toNat_newton (n0 x : UInt32) :
    (((n0 * (x * (2 - n0 * x))).toNat : Nat) : Int) ≡ (n0.toNat * x.toNat : Int) *
      (2 - n0.toNat * x.toNat)
      [ZMOD 2 ^ 32] := by
  have hx := (n0 * x).toNat_lt
  have hmul : ((n0 * x).toNat : Int) ≡ n0.toNat * x.toNat [ZMOD 2 ^ 32] := by
    rw [UInt32.toNat_mul]
    push_cast
    exact Int.mod_modEq _ _
  have hsub : ((2 - n0 * x : UInt32).toNat : Int) ≡ 2 - n0.toNat * x.toNat [ZMOD 2 ^ 32] := by
    have h : ((2 - n0 * x : UInt32).toNat : Int) ≡ 2 - (n0 * x).toNat [ZMOD 2 ^ 32] := by
      rw [UInt32.toNat_sub]
      simp only [UInt32.reduceToNat]
      rw [Int.modEq_iff_dvd]
      omega
    exact h.trans (Int.ModEq.sub_left _ hmul)
  rw [UInt32.toNat_mul, UInt32.toNat_mul]
  push_cast
  calc ((n0.toNat : Int) * (x.toNat * (2 - n0 * x : UInt32).toNat % 2 ^ 32)) % 2 ^ 32
      ≡ n0.toNat * (x.toNat * (2 - n0 * x : UInt32).toNat % 2 ^ 32) [ZMOD 2 ^ 32] := Int.mod_modEq _ _
    _ ≡ n0.toNat * (x.toNat * (2 - n0 * x : UInt32).toNat) [ZMOD 2 ^ 32] :=
        Int.ModEq.mul_left _ (Int.mod_modEq _ _)
    _ = (n0.toNat * x.toNat) * (2 - n0 * x : UInt32).toNat := (mul_assoc _ _ _).symm
    _ ≡ (n0.toNat * x.toNat) * (2 - n0.toNat * x.toNat) [ZMOD 2 ^ 32] := Int.ModEq.mul_left _ hsub

/-- After five rounds all 32 bits are right. -/
theorem newton_rounds {n0 : UInt32} (hodd : n0.toNat % 2 = 1) (rounds : Nat)
    (hrounds : rounds ≤ 5) :
    ((2 : Int) ^ 2 ^ rounds) ∣
      ((n0 * ((fun x => x * (2 - n0 * x))^[rounds] 1)).toNat : Int) - 1 := by
  induction rounds with
  | zero =>
    simp only [Function.iterate_zero, id_eq, UInt32.mul_one]
    omega
  | succ rounds ih =>
    rw [Function.iterate_succ_apply']
    generalize (fun x => x * (2 - n0 * x))^[rounds] 1 = x at ih ⊢
    have hpow : (2 : Int) ^ 2 ^ (rounds + 1) = 2 ^ 2 ^ rounds * 2 ^ 2 ^ rounds := by
      rw [pow_succ 2 rounds, pow_mul, sq]
    have hdvd : (2 : Int) ^ 2 ^ (rounds + 1) ∣ 2 ^ 32 := by
      rw [show (32 : Nat) = 2 ^ 5 by norm_num]
      exact pow_dvd_pow 2 (Nat.pow_le_pow_right (by norm_num) hrounds)
    -- the product itself is only known modulo the base
    have hbase : (2 : Int) ^ 2 ^ rounds ∣ n0.toNat * x.toNat - 1 := by
      have hmul : ((n0 * x).toNat : Int) ≡ n0.toNat * x.toNat [ZMOD 2 ^ 32] := by
        rw [UInt32.toNat_mul]
        push_cast
        exact Int.mod_modEq _ _
      have hsmall : (2 : Int) ^ 2 ^ rounds ∣ 2 ^ 32 := by
        rw [hpow] at hdvd
        exact (Dvd.intro _ rfl).trans hdvd
      have hsum := dvd_add (hsmall.trans (Int.modEq_iff_dvd.mp hmul)) (ih (by omega))
      rwa [sub_add_sub_cancel] at hsum
    have hround := newton_round hbase
    rw [← hpow] at hround
    have hdiff := hdvd.trans (Int.modEq_iff_dvd.mp (toNat_newton n0 x))
    have hsum := dvd_sub hround hdiff
    rwa [sub_sub_sub_cancel_left] at hsum

/-- The inverse of an odd word modulo 2^32, negated. -/
theorem rsaMontgomeryN0Inverse_spec {n0 : UInt32} (hodd : n0.toNat % 2 = 1) :
    n0 * rsaMontgomeryN0Inverse n0 = 0 - 1 := by
  have h := newton_rounds hodd 5 le_rfl
  unfold rsaMontgomeryN0Inverse
  generalize (fun inverse => inverse * (2 - n0 * inverse))^[5] 1 = x at h ⊢
  have hone : n0 * x = 1 := by
    have hlt := (n0 * x).toNat_lt
    rw [show (2 : Nat) ^ 5 = 32 by norm_num] at h
    have htoNat : (n0 * x).toNat = 1 := by omega
    exact UInt32.toNat_inj.mp htoNat
  rw [show (0 - x : UInt32) = -x by simp, UInt32.mul_neg, hone]
  decide

/-- The rows together are the product. -/
theorem multiplyRows_spec (right left product : List UInt32)
    (hlen : left.length + right.length ≤ product.length)
    (hfit : wordsValue product + wordsValue left * wordsValue right < wordPow product.length) :
    ∃ result, multiplyRows right left product = some result ∧ result.length = product.length ∧
      wordsValue result = wordsValue product + wordsValue left * wordsValue right := by
  induction left generalizing product with
  | nil => exact ⟨product, rfl, rfl, by simp⟩
  | cons l left ih =>
    simp only [List.length_cons] at hlen
    have hsum : wordsValue (l :: left) * wordsValue right =
        l.toNat * wordsValue right + 2 ^ 32 * (wordsValue left * wordsValue right) := by
      rw [wordsValue_cons]
      ring
    obtain ⟨hcarry, hrow⟩ := mulAddWords_fits l right product (by omega) (by omega)
    have hlength := length_mulAddWords l right product (by omega) 0
    simp only [multiplyRows, hcarry, ne_eq, not_true_eq_false, if_false]
    cases hcons : (mulAddWords l right product 0).1 with
    | nil =>
      rw [hcons] at hlength
      simp at hlength
      omega
    | cons p rest =>
      rw [hcons, wordsValue_cons] at hrow
      rw [hcons, List.length_cons] at hlength
      rw [← hlength, wordPow_succ] at hfit
      obtain ⟨result, hresult, hlen', hvalue⟩ := ih rest (by omega) (by omega)
      refine ⟨p :: result, by simp [hresult], by simp [hlen', hlength], ?_⟩
      rw [wordsValue_cons, hvalue]
      omega

/-- The multiple of the modulus that is added clears the lowest word. -/
theorem reduce_word {n0 n0Inverse p : UInt32} (hinv : n0 * n0Inverse = 0 - 1) :
    (p.toNat + (p * n0Inverse).toNat * n0.toNat) % 2 ^ 32 = 0 := by
  have hzero : p + p * n0Inverse * n0 = 0 := by
    calc p + p * n0Inverse * n0 = p + p * (n0 * n0Inverse) := by rw [UInt32.mul_assoc, UInt32.mul_comm n0Inverse]
      _ = p + p * (0 - 1) := by rw [hinv]
      _ = 0 := by
        rw [show (0 - 1 : UInt32) = -1 by decide, UInt32.mul_neg, UInt32.mul_one,
          UInt32.add_right_neg]
  have h := congrArg UInt32.toNat hzero
  rw [UInt32.toNat_add, UInt32.toNat_mul] at h
  simpa [Nat.add_mod] using h

/-- The rows of the reduction clear the lower half. -/
theorem reduceRows_spec {modulus : List UInt32} {n0Inverse : UInt32} (hne : modulus ≠ [])
    (hinv : modulus.headD 0 * n0Inverse = 0 - 1) (rounds : Nat) (product : List UInt32)
    (hlen : rounds + modulus.length ≤ product.length)
    (hfit : wordsValue product + (wordPow rounds - 1) * wordsValue modulus <
      wordPow product.length) :
    ∃ result factor, reduceRows modulus n0Inverse rounds product = some result ∧
      result.length + rounds = product.length ∧ factor < wordPow rounds ∧
      wordsValue product + factor * wordsValue modulus = wordPow rounds * wordsValue result := by
  obtain ⟨n0, high, rfl⟩ := List.exists_cons_of_ne_nil hne
  induction rounds generalizing product with
  | zero => exact ⟨product, 0, rfl, rfl, by simp [wordPow], by simp [wordPow]⟩
  | succ rounds ih =>
    generalize hmod : wordsValue (n0 :: high) = n at *
    have hpow := wordPow_succ rounds
    have hpos : 1 ≤ wordPow rounds := Nat.one_le_two_pow
    cases product with
    | nil => simp at hlen
    | cons p product =>
      simp only [List.length_cons] at hlen
      simp only [List.headD_cons] at hinv
      generalize hfactor : p * n0Inverse = factor
      have hflt := factor.toNat_lt
      -- the whole sum fits, since the factors of all rows together are below the base power
      have hsplit : (wordPow (rounds + 1) - 1) * n = (2 ^ 32 - 1) * n +
          2 ^ 32 * ((wordPow rounds - 1) * n) := by
        obtain ⟨k, hk⟩ := Nat.exists_eq_add_of_le hpos
        rw [hpow, hk, show 2 ^ 32 * (1 + k) - 1 = 2 ^ 32 - 1 + 2 ^ 32 * k by omega,
          show 1 + k - 1 = k by omega]
        ring
      have hfn : factor.toNat * n ≤ (2 ^ 32 - 1) * n := Nat.mul_le_mul_right _ (by omega)
      obtain ⟨hcarry, hrow⟩ := mulAddWords_fits factor (n0 :: high) (p :: product)
        (by simp; omega) (by rw [hmod]; omega)
      have hlength := length_mulAddWords factor (n0 :: high) (p :: product) (by simp; omega) 0
      rw [hmod] at hrow
      obtain ⟨w, rest, hcons⟩ : ∃ w rest, (mulAddWords factor (n0 :: high) (p :: product) 0).1 = w :: rest := by
        cases hc : (mulAddWords factor (n0 :: high) (p :: product) 0).1 with
        | nil => simp [hc] at hlength
        | cons w rest => exact ⟨w, rest, rfl⟩
      have hlow := reduce_word (p := p) hinv
      rw [hfactor] at hlow
      rw [hcons, wordsValue_cons] at hrow
      -- the lowest word of the row is zero
      have hw : w.toNat = 0 := by
        have hwlt := w.toNat_lt
        have hn : n = n0.toNat + 2 ^ 32 * wordsValue high := by rw [← hmod, wordsValue_cons]
        rw [wordsValue_cons, hn, Nat.mul_add, Nat.mul_left_comm] at hrow
        generalize factor.toNat * n0.toNat = a at hrow hlow
        generalize factor.toNat * wordsValue high = b at hrow
        omega
      rw [hcons, List.length_cons, List.length_cons] at hlength
      rw [List.length_cons, ← hlength, hsplit, wordPow_succ] at hfit
      obtain ⟨result, f, hresult, hreslen, hf, hvalue⟩ := ih rest (by simp only [List.length_cons]; omega) (by omega)
      refine ⟨result, factor.toNat + 2 ^ 32 * f, ?_, ?_, ?_, ?_⟩
      · simp only [reduceRows, List.headD_cons, hfactor, hcarry, ne_eq, not_true_eq_false,
          if_false, hcons,
          List.tail_cons]
        exact hresult
      · simp only [List.length_cons]
        omega
      · rw [hpow]
        omega
      · calc wordsValue (p :: product) + (factor.toNat + 2 ^ 32 * f) * n
            = (wordsValue (p :: product) + factor.toNat * n) + 2 ^ 32 * (f * n) := by ring
          _ = 2 ^ 32 * (wordsValue rest + f * n) := by rw [← hrow, hw]; ring
          _ = wordPow (rounds + 1) * wordsValue result := by rw [hvalue, hpow]; ring

/-- An odd modulus has no factor in common with a power of two. -/
theorem coprime_wordPow {n : Nat} (hodd : n % 2 = 1) (words : Nat) :
    Nat.Coprime (wordPow words) n := by
  have htwo : Nat.Coprime 2 n := by
    rw [Nat.coprime_two_left, Nat.odd_iff]
    exact hodd
  exact htwo.pow_left _

section

variable {modulus : List UInt32} {n0Inverse : UInt32}

/-- The upper half and its carry. -/
theorem wordsValue_take (upper : List UInt32) (words : Nat) (hwords : words < upper.length)
    (hlt : wordsValue upper < 2 * wordPow words) :
    wordsValue upper = wordsValue (upper.take words) +
      wordPow words * (upper.getD words 0).toNat := by
  have hlen : (upper.take words).length = words := List.length_take_of_le (by omega)
  have hsplit : wordsValue upper = wordsValue (upper.take words) +
      wordPow words * wordsValue (upper.drop words) := by
    have h := wordsValue_append (upper.take words) (upper.drop words)
    rwa [List.take_append_drop, hlen] at h
  have hone : wordsValue (upper.drop words) ≤ 1 := by
    by_contra hnot
    have := Nat.mul_le_mul_left (wordPow words) (Nat.not_le.mp hnot)
    simp only [Nat.succ_eq_add_one] at this
    omega
  rw [hsplit, List.drop_eq_getElem_cons hwords, wordsValue_cons]
  rw [List.drop_eq_getElem_cons hwords, wordsValue_cons] at hone
  have hrest : wordsValue (upper.drop (words + 1)) = 0 := by omega
  rw [hrest, List.getD_eq_getElem _ _ hwords]
  simp

/-- Montgomery's product is the product divided by 2^(32k), modulo the modulus. -/
theorem rsaMontgomeryMultiply_spec (hne : modulus ≠ []) (hmax : modulus.length ≤ rsaMaxModulusWords)
    (hinv : modulus.headD 0 * n0Inverse = 0 - 1) {left right : List UInt32}
    (hleft : left.length = modulus.length) (hright : right.length = modulus.length)
    (hl : wordsValue left ≤ wordsValue modulus) (hr : wordsValue right ≤ wordsValue modulus)
    (hpos : 0 < wordsValue modulus) :
    ∃ result, rsaMontgomeryMultiply modulus n0Inverse left right = some result ∧
      result.length = modulus.length ∧ wordsValue result < wordsValue modulus ∧
      wordsValue result * wordPow modulus.length ≡ wordsValue left * wordsValue right [MOD wordsValue modulus] := by
  have hwords : 0 < modulus.length := List.length_pos_iff.mpr hne
  unfold rsaMaxModulusWords at hmax
  have hn := wordsValue_lt_wordPow modulus
  generalize hN : wordsValue modulus = n at *
  generalize hW : modulus.length = words at *
  have hprod : wordsValue left * wordsValue right ≤ n * n := Nat.mul_le_mul hl hr
  have hsquare : n * n < wordPow words * n := Nat.mul_lt_mul_of_pos_right hn hpos
  -- twice the modulus times the base power fits into the product
  generalize hdouble : 2 * rsaMaxModulusWords + 2 = size
  have hsize := hdouble
  unfold rsaMaxModulusWords at hsize
  have hfit : 2 * (wordPow words * n) ≤ wordPow size := by
    calc 2 * (wordPow words * n) ≤ 2 ^ 32 * (wordPow words * wordPow words) :=
          Nat.mul_le_mul (by norm_num) (Nat.mul_le_mul_left _ hn.le)
      _ = 2 ^ (32 + (32 * words + 32 * words)) := by rw [Nat.pow_add, Nat.pow_add]
      _ ≤ wordPow size := Nat.pow_le_pow_right (by norm_num) (by omega)
  obtain ⟨product, hproduct, hplen, hpvalue⟩ := multiplyRows_spec right left (List.replicate size 0)
    (by rw [List.length_replicate]; omega) (by rw [wordsValue_replicate_zero, List.length_replicate]; omega)
  rw [wordsValue_replicate_zero, Nat.zero_add] at hpvalue
  rw [List.length_replicate] at hplen
  obtain ⟨upper, factor, hupper, hulen, hfactor, huvalue⟩ := reduceRows_spec hne hinv words product
    (by omega) (by
      rw [hpvalue, hplen, hN]
      have : (wordPow words - 1) * n ≤ wordPow words * n := Nat.mul_le_mul_right _ (Nat.sub_le _ _)
      omega)
  rw [hpvalue, hN] at huvalue
  have hRpos : 0 < wordPow words := Nat.two_pow_pos _
  have hbound : wordsValue upper < 2 * n := by
    have hfn : factor * n ≤ wordPow words * n := Nat.mul_le_mul_right _ hfactor.le
    have : wordPow words * wordsValue upper < wordPow words * (2 * n) := by
      rw [← huvalue]
      calc _ < wordPow words * n + wordPow words * n := by omega
        _ = wordPow words * (2 * n) := by ring
    exact Nat.lt_of_mul_lt_mul_left this
  have hmodEq : wordsValue upper * wordPow words ≡ wordsValue left * wordsValue right [MOD n] := by
    rw [Nat.mul_comm, ← huvalue]
    exact (Nat.modEq_iff_dvd' (Nat.le_add_right _ _)).mpr ⟨factor,
      by rw [Nat.add_sub_cancel_left, Nat.mul_comm]⟩ |>.symm
  have htake := wordsValue_take upper words (by omega) (by omega)
  have htlen : (upper.take words).length = modulus.length := by
    rw [List.length_take_of_le (by omega), hW]
  have hstart : rsaMontgomeryMultiply modulus n0Inverse left right =
      if upper.getD words 0 ≠ 0 ∨ rsaWordsCompare (upper.take words) modulus ≠ .lt then
        some (rsaWordsSub 0 (upper.take words) modulus) else some (upper.take words) := by
    simp only [rsaMontgomeryMultiply, hW, hproduct, hupper, hdouble]
    rw [if_neg (by unfold rsaMaxModulusWords; omega)]
  rw [hstart]
  split
  · next hc =>
      have hge : n ≤ wordsValue upper := by
        rcases hc with hc | hc
        · have h1 : 1 ≤ (upper.getD words 0).toNat :=
            Nat.one_le_iff_ne_zero.mpr fun hz => hc (UInt32.toNat_inj.mp hz)
          have := Nat.mul_le_mul_left (wordPow words) h1
          omega
        · have := (rsaWordsCompare_ne_lt htlen).mp hc
          omega
      have hsub := wordsValue_rsaWordsSub (upper.getD words 0).toNat htlen
        (by rw [htlen, hW, ← htake, hN]; exact hge) (by rw [htlen, hW, ← htake, hN]; omega)
      rw [htlen, hW, ← htake, hN] at hsub
      refine ⟨_, rfl, by rw [length_rsaWordsSub 0 htlen, htlen, hW], by omega, ?_⟩
      rw [hsub]
      refine Nat.ModEq.trans ?_ hmodEq
      refine Nat.ModEq.mul_right _ ?_
      exact (Nat.modEq_iff_dvd' (Nat.sub_le _ _)).mpr ⟨1, by omega⟩
  · next hc =>
      obtain ⟨hcarry, hcmp⟩ := not_or.mp hc
      have hvalue : wordsValue (upper.take words) = wordsValue upper := by
        rw [htake, not_not.mp hcarry]
        simp
      have hlt : wordsValue (upper.take words) < n := by
        rw [← hN]
        exact Nat.not_le.mp fun hnot => hcmp ((rsaWordsCompare_ne_lt htlen).mpr hnot)
      exact ⟨_, rfl, by rw [htlen, hW], hlt, by rw [hvalue]; exact hmodEq⟩

def bitsValue : List Bool → Nat
  | [] => 0
  | b :: bs => b.toNat + 2 * bitsValue bs

theorem modEq_of_multiply {n r t a b x y : Nat} (hcop : Nat.Coprime r n)
    (ht : t * r ≡ a * b [MOD n]) (ha : a ≡ x * r [MOD n]) (hb : b ≡ y * r [MOD n]) :
    t ≡ x * y * r [MOD n] := by
  have hcop' : Nat.gcd n r = 1 := by rw [Nat.gcd_comm]; exact hcop
  refine Nat.ModEq.cancel_right_of_coprime hcop' ?_
  calc t * r ≡ a * b [MOD n] := ht
    _ ≡ (x * r) * (y * r) [MOD n] := Nat.ModEq.mul ha hb
    _ = x * y * r * r := by ring

structure Stands (modulus number : List UInt32) (x : Nat) : Prop where
  length_eq : number.length = modulus.length
  le : wordsValue number ≤ wordsValue modulus
  modEq : wordsValue number ≡ x * wordPow modulus.length [MOD wordsValue modulus]

section

variable (hne : modulus ≠ []) (hmax : modulus.length ≤ rsaMaxModulusWords)
  (hinv : modulus.headD 0 * n0Inverse = 0 - 1) (hodd : wordsValue modulus % 2 = 1)
include hne hmax hinv hodd

/-- The product of what two numbers stand for. -/
theorem Stands.multiply {left right : List UInt32} {x y : Nat} (hl : Stands modulus left x)
    (hr : Stands modulus right y) :
    ∃ result, rsaMontgomeryMultiply modulus n0Inverse left right = some result ∧
      Stands modulus result (x * y) := by
  obtain ⟨result, hresult, hlen, hlt, hmod⟩ :=
    rsaMontgomeryMultiply_spec hne hmax hinv hl.length_eq hr.length_eq hl.le hr.le
    (by omega)
  refine ⟨result, hresult, hlen, hlt.le, ?_⟩
  exact modEq_of_multiply (coprime_wordPow hodd _) hmod hl.modEq hr.modEq

/-- The loop over the bits of the exponent squares and multiplies. -/
theorem rsaModpowLoop_spec (bits : List Bool) {result base : List UInt32} {x y : Nat}
    (hr : Stands modulus result y) (hb : Stands modulus base x) :
    ∃ state, rsaModpowLoop modulus n0Inverse bits (result, base) = some state ∧
      Stands modulus state.1 (y * x ^ bitsValue bits) := by
  induction bits generalizing result base x y with
  | nil => exact ⟨(result, base), rfl, by simpa [bitsValue] using hr⟩
  | cons b bits ih =>
    obtain ⟨base', hbase', hb'⟩ := Stands.multiply hne hmax hinv hodd hb hb
    cases b with
    | false =>
      obtain ⟨state, hstate, hs⟩ := ih hr hb'
      refine ⟨state, by simp [rsaModpowLoop, hbase', hstate], ?_⟩
      have hpow : y * x ^ bitsValue (false :: bits) = y * (x * x) ^ bitsValue bits := by
        simp only [bitsValue, Bool.toNat_false, Nat.zero_add, pow_mul, sq]
      rw [hpow]
      exact hs
    | true =>
      obtain ⟨result', hresult', hr'⟩ := Stands.multiply hne hmax hinv hodd hr hb
      obtain ⟨state, hstate, hs⟩ := ih hr' hb'
      refine ⟨state, by simp [rsaModpowLoop, hresult', hbase', hstate], ?_⟩
      have hpow : y * x ^ bitsValue (true :: bits) = y * x * (x * x) ^ bitsValue bits := by
        simp only [bitsValue, Bool.toNat_true, pow_add, pow_one, pow_mul, sq, Nat.mul_assoc]
      rw [hpow]
      exact hs

end

/-- Doubling several times. -/
theorem iterate_rsaWordsDoubleMod {value : List UInt32} (hlen : value.length = modulus.length)
    (hle : wordsValue value ≤ wordsValue modulus) (k : Nat) :
    ((rsaWordsDoubleMod modulus)^[k] value).length = modulus.length ∧
      wordsValue ((rsaWordsDoubleMod modulus)^[k] value) ≤ wordsValue modulus ∧
      wordsValue ((rsaWordsDoubleMod modulus)^[k] value) ≡ wordsValue value * 2 ^ k [MOD wordsValue modulus] := by
  induction k with
  | zero => exact ⟨hlen, hle, by simp [Nat.ModEq]⟩
  | succ k ih =>
    obtain ⟨hlen', hle', hmod⟩ := ih
    rw [Function.iterate_succ_apply']
    obtain ⟨h1, h2, h3⟩ := rsaWordsDoubleMod_spec hlen' hle'
    refine ⟨h1, h2, h3.trans ?_⟩
    calc 2 * wordsValue ((rsaWordsDoubleMod modulus)^[k] value)
        ≡ 2 * (wordsValue value * 2 ^ k) [MOD wordsValue modulus] := Nat.ModEq.mul_left _ hmod
      _ = wordsValue value * 2 ^ (k + 1) := by ring

/-- A number that was doubled 32k times stands for itself. -/
theorem Stands.of_double {value : List UInt32} (hlen : value.length = modulus.length)
    (hle : wordsValue value ≤ wordsValue modulus) :
    Stands modulus ((rsaWordsDoubleMod modulus)^[modulus.length * 32] value)
      (wordsValue value) := by
  obtain ⟨h1, h2, h3⟩ := iterate_rsaWordsDoubleMod hlen hle (modulus.length * 32)
  refine ⟨h1, h2, ?_⟩
  rw [wordPow, Nat.mul_comm 32]
  exact h3

end

theorem bitsValue_append (u v : List Bool) :
    bitsValue (u ++ v) = bitsValue u + 2 ^ u.length * bitsValue v := by
  induction u with
  | nil => simp [bitsValue]
  | cons b u ih =>
    simp only [List.cons_append, bitsValue, ih, List.length_cons, pow_succ]
    ring

theorem bitsValue_range (w k : Nat) :
    bitsValue ((List.range k).map fun i => w.testBit i) = w % 2 ^ k := by
  induction k with
  | zero => simp [bitsValue, Nat.mod_one]
  | succ k ih =>
    have hbit : (w.testBit k).toNat = w / 2 ^ k % 2 := by
      rw [Nat.testBit_eq_decide_div_mod_eq]
      rcases Nat.mod_two_eq_zero_or_one (w / 2 ^ k) with h | h <;> simp [h]
    rw [List.range_succ, List.map_append, bitsValue_append, ih, Nat.mod_pow_succ]
    simp only [List.map_cons, List.map_nil, bitsValue, List.length_map, List.length_range, hbit,
      Nat.mul_zero,
      Nat.add_zero]

/-- The bits of the exponent are its value. -/
theorem bitsValue_exponentBits (e : List UInt32) : bitsValue (exponentBits e) = wordsValue e := by
  induction e with
  | nil => rfl
  | cons w e ih =>
    have hbits : ((List.range 32).map fun i => w >>> UInt32.ofNat i &&& 1 != 0) =
        (List.range 32).map fun i => w.toNat.testBit i := by
      refine List.map_congr_left fun i hi => ?_
      have hi : i < 32 := List.mem_range.mp hi
      rw [Nat.testBit_eq_decide_div_mod_eq, Bool.eq_iff_iff, bne_iff_ne, decide_eq_true_iff, ne_eq,
        ← UInt32.toNat_inj]
      have hmod : (w >>> UInt32.ofNat i &&& 1).toNat = w.toNat / 2 ^ i % 2 := by
        rw [UInt32.toNat_and, UInt32.toNat_shiftRight, Nat.shiftRight_eq_div_pow]
        have hof : (UInt32.ofNat i).toNat % 32 = i := by
          rw [UInt32.toNat_ofNat']
          omega
        rw [hof]
        exact Nat.and_one_is_mod _
      rw [hmod]
      simp only [UInt32.reduceToNat]
      omega
    simp only [exponentBits, List.flatMap_cons] at ih ⊢
    rw [bitsValue_append, ih, hbits, bitsValue_range, wordsValue_cons]
    simp only [List.length_map, List.length_range]
    rw [Nat.mod_eq_of_lt w.toNat_lt]

end Monios.Analysis
