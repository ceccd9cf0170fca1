import Monios.Analysis.SignatureBlock

/-!
# Remainders and powers of `rsa.c`

`bignum_mod` shifts the bits of a number into its result and subtracts the modulus where it can, so
that the result is the number above the current bit, reduced (`wordsValue_bignumModFrom`). Called
with one object for both it first sets the number to zero.
-/

set_option autoImplicit false

namespace Monios.Analysis.GeneralPower

open Monios.Library Monios.Model

theorem trimmed_iff {words : List UInt32} :
    Trimmed words ↔ words ≠ [] ∧
      (words.length = 1 ∨ wordPow (words.length - 1) ≤ wordsValue words) := by
  rcases List.eq_nil_or_concat words with rfl | ⟨low, w, rfl⟩
  · simp [Trimmed]
  · have hlength : (low ++ [w]).length - 1 = low.length := by simp
    have hvalue : wordsValue (low ++ [w]) = wordsValue low + wordPow low.length * w.toNat := by
      rw [wordsValue_append]
      simp
    have hlow := wordsValue_lt_wordPow low
    rw [List.concat_eq_append, hlength, hvalue]
    constructor
    · intro h
      refine ⟨by simp, ?_⟩
      rcases h with h | ⟨low', w', heq, hw⟩
      · exact .inl (by rw [h]; rfl)
      · obtain ⟨rfl, rfl⟩ := List.append_singleton_inj.mp heq
        right
        have hpos : 1 ≤ w.toNat := Nat.one_le_iff_ne_zero.mpr fun h => hw (UInt32.toNat_inj.mp h)
        have hmul := Nat.mul_le_mul_left (wordPow low.length) hpos
        omega
    · rintro ⟨-, h⟩
      by_cases hw : w = 0
      · rcases h with h | h
        · have hnil : low = [] := by simpa using h
          exact .inl (by rw [hnil, hw]; rfl)
        · rw [hw, UInt32.toNat_zero, Nat.mul_zero] at h
          omega
      · exact .inr ⟨low, w, rfl, hw⟩

theorem lt_topBits {n : Nat} {w : UInt32} (h : w.toNat < 2 ^ n) : w.toNat < 2 ^ topBits n w := by
  induction n generalizing w with
  | zero => exact h
  | succ n ih =>
    rw [topBits]
    by_cases hw : w ≠ 0
    · have hhalf : (w >>> 1).toNat = w.toNat / 2 := by
        rw [UInt32.toNat_shiftRight, Nat.shiftRight_eq_div_pow]
        rfl
      have hnext := @ih (w >>> 1) (by rw [hhalf, Nat.div_lt_iff_lt_mul (by decide)]; rwa [Nat.pow_succ] at h)
      rw [if_pos hw, Nat.pow_succ]
      omega
    · rw [if_neg hw, not_not.mp hw]
      simp

theorem wordsValue_lt_bitLength {a : List UInt32} (ha : a ≠ []) :
    wordsValue a < 2 ^ bignumBitLength a := by
  rcases List.eq_nil_or_concat a with rfl | ⟨low, w, rfl⟩
  · exact absurd rfl ha
  · have hlow := wordsValue_lt_wordPow low
    have htop := lt_topBits (n := 32) w.toNat_lt
    have hvalue : wordsValue (low ++ [w]) = wordsValue low + wordPow low.length * w.toNat := by
      rw [wordsValue_append]
      simp
    have hbits : wordsValue (low ++ [w]) < 2 ^ (low.length * 32 + topBits 32 w) := by
      have hmul := Nat.mul_le_mul_left (wordPow low.length) (Nat.succ_le_of_lt htop)
      rw [Nat.mul_succ] at hmul
      rw [hvalue, Nat.mul_comm low.length, Nat.pow_add]
      show _ < wordPow low.length * _
      omega
    rw [List.concat_eq_append, bignumBitLength, if_neg (by simp)]
    simp only [List.length_append, List.length_singleton, Nat.add_sub_cancel, List.getLastD_concat]
    split
    · next hzero =>
      rw [hzero] at hbits
      omega
    · exact hbits

theorem wordBit (w : UInt32) {i : Nat} (hi : i < 32) :
    (w >>> UInt32.ofNat i &&& 1 != 0) = decide (w.toNat / 2 ^ i % 2 = 1) := by
  have hof : (UInt32.ofNat i).toNat % 32 = i := by
    rw [UInt32.toNat_ofNat']
    omega
  have hmod : (w >>> UInt32.ofNat i &&& 1).toNat = w.toNat / 2 ^ i % 2 := by
    rw [UInt32.toNat_and, UInt32.toNat_shiftRight, Nat.shiftRight_eq_div_pow, hof]
    exact Nat.and_one_is_mod _
  rw [Bool.eq_iff_iff, bne_iff_ne, decide_eq_true_iff, ne_eq, ← UInt32.toNat_inj, hmod,
    UInt32.toNat_zero]
  omega

theorem bignumGetBit_eq (a : List UInt32) (bit : Nat) :
    bignumGetBit a bit = decide (wordsValue a / 2 ^ bit % 2 = 1) := by
  induction a generalizing bit with
  | nil => simp [bignumGetBit]
  | cons w words ih =>
    rw [wordsValue_cons]
    by_cases hbit : bit < 32
    · have hpow : 2 ^ 32 * wordsValue words = 2 ^ bit * (2 * (2 ^ (31 - bit) * wordsValue words)) := by
        rw [← Nat.mul_assoc, ← Nat.mul_assoc, ← Nat.pow_succ, ← Nat.pow_add]
        congr 2
        omega
      have hzero : bit / 32 = 0 := Nat.div_eq_of_lt hbit
      rw [bignumGetBit, hzero, List.getElem?_cons_zero]
      simp only
      rw [Nat.mod_eq_of_lt hbit, wordBit w hbit, hpow, Nat.add_mul_div_left _ _ (Nat.two_pow_pos bit),
        Nat.add_mul_mod_self_left]
    · obtain ⟨k, rfl⟩ := Nat.exists_eq_add_of_le (Nat.le_of_not_lt hbit)
      have hnext : (32 + k) / 32 = k / 32 + 1 := by omega
      have hsame : (32 + k) % 32 = k % 32 := by omega
      have hdiv : (w.toNat + 2 ^ 32 * wordsValue words) / 2 ^ (32 + k) =
          wordsValue words / 2 ^ k := by
        rw [Nat.pow_add, ← Nat.div_div_eq_div_mul, Nat.add_mul_div_left _ _ (by decide),
          Nat.div_eq_of_lt w.toNat_lt,
          Nat.zero_add]
      rw [hdiv, ← ih k, bignumGetBit, bignumGetBit, hnext, hsame, List.getElem?_cons_succ]

theorem bignumShl1_spec {r : List UInt32} (hr : Trimmed r)
    (hfits : 2 * wordsValue r < wordPow (2 * rsaMaxModulusWords)) :
    Trimmed (bignumShl1 r) ∧ wordsValue (bignumShl1 r) = 2 * wordsValue r := by
  obtain ⟨hne, htop⟩ := trimmed_iff.mp hr
  have hpos := List.length_pos_iff.mpr hne
  have hshift := wordsValue_rsaWordsShift 0 (by simp) r
  have hlength := length_rsaWordsShift 0 r
  simp only [UInt32.toNat_zero, Nat.add_zero] at hshift
  rw [bignumShl1]
  by_cases hcarry : (rsaWordsShift 0 r).2 = 0
  · rw [if_neg (by simp [hcarry]), trimmed_iff]
    rw [hcarry, UInt32.toNat_zero, Nat.mul_zero, Nat.add_zero] at hshift
    refine ⟨⟨?_, ?_⟩, hshift⟩
    · rw [← List.length_pos_iff, hlength]
      exact hpos
    · rw [hlength, hshift]
      omega
  · have hone : 1 ≤ (rsaWordsShift 0 r).2.toNat :=
      Nat.one_le_iff_ne_zero.mpr fun h => hcarry (UInt32.toNat_inj.mp h)
    have hmul := Nat.mul_le_mul_left (wordPow r.length) hone
    have hroom : r.length < 2 * rsaMaxModulusWords := by
      by_contra hfull
      have hpow : wordPow (2 * rsaMaxModulusWords) ≤ wordPow r.length :=
        Nat.pow_le_pow_right (by decide) (by omega)
      omega
    rw [if_pos ⟨hcarry, hroom⟩]
    refine ⟨.inr ⟨_, _, rfl, hcarry⟩, ?_⟩
    rw [wordsValue_append, hlength, wordsValue_cons, wordsValue_nil, Nat.mul_zero, Nat.add_zero]
    exact hshift

theorem setBit_spec {r : List UInt32} (hr : Trimmed r) (heven : wordsValue r % 2 = 0) :
    Trimmed ((r.headD 0 ||| 1) :: r.tail) ∧
      wordsValue ((r.headD 0 ||| 1) :: r.tail) = wordsValue r + 1 := by
  obtain ⟨hne, htop⟩ := trimmed_iff.mp hr
  cases r with
  | nil => exact absurd rfl hne
  | cons w words =>
    rw [wordsValue_cons] at heven htop
    have hor : (w ||| 1).toNat = w.toNat + 1 := by
      obtain ⟨k, hk⟩ : ∃ k, w.toNat = 2 ^ 1 * k := ⟨w.toNat / 2, by omega⟩
      rw [UInt32.toNat_or, hk]
      exact (Nat.two_pow_add_eq_or_of_lt (by decide) k).symm
    simp only [List.headD_cons, List.tail_cons]
    rw [trimmed_iff, wordsValue_cons, wordsValue_cons, hor]
    refine ⟨⟨by simp, ?_⟩, by omega⟩
    simp only [List.length_cons] at htop ⊢
    omega

theorem bignumCmp_ne_lt {a b : List UInt32} (ha : Trimmed a) (hb : Trimmed b) :
    bignumCmp a b ≠ .lt ↔ wordsValue b ≤ wordsValue a := by
  rw [← input_too_large_iff ha hb, bignumCmp]
  by_cases hlength : a.length = b.length
  · rw [if_neg (not_not.mpr hlength)]
    simp [hlength]
  · rw [if_pos hlength, ne_eq, Nat.compare_eq_lt, Nat.not_lt]
    constructor
    · intro h
      exact .inl (by omega)
    · rintro (h | h)
      · omega
      · exact absurd h.1 hlength

theorem wordsValue_eq_head_tail (b : List UInt32) :
    wordsValue b = (b.headD 0).toNat + 2 ^ 32 * wordsValue b.tail := by
  cases b with
  | nil => rfl
  | cons w words => exact wordsValue_cons w words

theorem wordsValue_bignumSubFrom {borrow : Int} (hb : borrow = 0 ∨ borrow = 1) {a b : List UInt32}
    (h : b.length ≤ a.length) :
    (bignumSubFrom borrow a b).length = a.length ∧ ∃ out : Int, (out = 0 ∨ out = 1) ∧
        (wordsValue (bignumSubFrom borrow a b) : Int) = wordsValue a - wordsValue b - borrow +
        wordPow a.length * out := by
  induction a generalizing borrow b with
  | nil =>
    obtain rfl : b = [] := List.length_eq_zero_iff.mp (Nat.le_zero.mp h)
    exact ⟨rfl, borrow, hb, by simp [bignumSubFrom, wordPow]⟩
  | cons w words ih =>
    have htail : b.tail.length ≤ words.length := by
      rw [List.length_tail]
      rw [List.length_cons] at h
      omega
    have hw := w.toNat_lt
    have hb0 := (b.headD 0).toNat_lt
    have hvalue := wordsValue_eq_head_tail b
    rw [bignumSubFrom]
    -- one word, and the borrow that it hands on
    have hstep (word next : Nat) (hword : word < 2 ^ 32) (hnext : ((next : Int) = 0 ∨ (next : Int) = 1))
        (heq : (word : Int) = w.toNat - borrow - (b.headD 0).toNat + 2 ^ 32 * next) :
        (UInt32.ofNat word :: bignumSubFrom next words b.tail).length = (w :: words).length ∧
          ∃ out : Int, (out = 0 ∨ out = 1) ∧ (wordsValue (UInt32.ofNat word :: bignumSubFrom next words b.tail) : Int) =
              wordsValue (w :: words) - wordsValue b - borrow + wordPow (w :: words).length * out := by
      obtain ⟨hlength, out, hout, hrest⟩ := ih hnext htail
      refine ⟨by rw [List.length_cons, hlength, List.length_cons], out, hout, ?_⟩
      rw [wordsValue_cons, wordsValue_cons, UInt32.toNat_ofNat_of_lt' hword, hvalue,
        List.length_cons, wordPow_succ]
      generalize wordPow words.length = power at hrest ⊢
      push_cast
      rw [hrest, heq, Int.mul_assoc]
      ring
    split
    · next hneg =>
      refine hstep _ 1 (by omega) (.inr rfl) ?_
      rw [Int.toNat_of_nonneg (by omega)]
      push_cast
      ring
    · next hpos =>
      refine hstep _ 0 (by omega) (.inl rfl) ?_
      rw [Int.toNat_of_nonneg (by omega)]
      push_cast
      ring

theorem bignumSub_spec {a b : List UInt32} (ha : Trimmed a) (hb : Trimmed b)
    (hle : wordsValue b ≤ wordsValue a) :
    Trimmed (bignumSub a b) ∧ wordsValue (bignumSub a b) = wordsValue a - wordsValue b := by
  have hlength : b.length ≤ a.length := by
    by_contra hlt
    have := hb.lt_of_length_lt ha.ne_nil (by omega)
    omega
  obtain ⟨hsame, out, hout, hvalue⟩ := @wordsValue_bignumSubFrom 0 (.inl rfl) a b hlength
  obtain ⟨htrimmed, htrim, -⟩ := trimWords_spec (bignumSubFrom 0 a b)
  refine ⟨htrimmed, ?_⟩
  have hlt := wordsValue_lt_wordPow (bignumSubFrom 0 a b)
  rw [hsame] at hlt
  rw [bignumSub, htrim]
  rcases hout with rfl | rfl
  · omega
  · omega

theorem wordsValue_bignumModFrom {a m : List UInt32} (hm : Trimmed m) (hpos : 0 < wordsValue m)
    (hfits : a.length ≤ 2 * rsaMaxModulusWords) {bit : Nat} {r : List UInt32} (hr : Trimmed r)
    (hvalue : wordsValue r = wordsValue a / 2 ^ bit % wordsValue m) :
    wordsValue (bignumModFrom (.other a) m bit r) = wordsValue a % wordsValue m := by
  induction bit generalizing r with
  | zero =>
    rw [Nat.pow_zero, Nat.div_one] at hvalue
    exact hvalue
  | succ bit ih =>
    have hhalf : wordsValue a / 2 ^ bit = 2 * (wordsValue a / 2 ^ (bit + 1)) +
        wordsValue a / 2 ^ bit % 2 := by
      rw [Nat.pow_succ, ← Nat.div_div_eq_div_mul]
      omega
    have hle : wordsValue r ≤ wordsValue a / 2 ^ (bit + 1) := hvalue ▸ Nat.mod_le _ _
    have hlt : wordsValue r < wordsValue m := hvalue ▸ Nat.mod_lt _ hpos
    have hall : wordsValue a / 2 ^ bit < wordPow (2 * rsaMaxModulusWords) :=
      calc wordsValue a / 2 ^ bit ≤ wordsValue a := Nat.div_le_self _ _
        _ < wordPow a.length := wordsValue_lt_wordPow a
        _ ≤ wordPow (2 * rsaMaxModulusWords) := Nat.pow_le_pow_right (by decide) (by omega)
    obtain ⟨hshl, hshlValue⟩ := bignumShl1_spec hr (by omega)
    -- the next bit, shifted in
    obtain ⟨extended, hext, hextValue, hextEq⟩ : ∃ extended, Trimmed extended ∧
        wordsValue extended = 2 * wordsValue r + wordsValue a / 2 ^ bit % 2 ∧
        (if bignumGetBit a bit then ((bignumShl1 r).headD 0 ||| 1) :: (bignumShl1 r).tail else bignumShl1 r) = extended := by
      rw [bignumGetBit_eq]
      by_cases hbit : wordsValue a / 2 ^ bit % 2 = 1
      · obtain ⟨hset, hsetValue⟩ := setBit_spec hshl (by omega)
        exact ⟨_, hset, by omega, if_pos (by simpa using hbit)⟩
      · exact ⟨_, hshl, by omega, if_neg (by simpa using hbit)⟩
    have hmod : (2 * wordsValue r + wordsValue a / 2 ^ bit % 2) % wordsValue m =
        wordsValue a / 2 ^ bit % wordsValue m := by
      conv_rhs => rw [hhalf]
      rw [hvalue]
      exact ((Nat.mod_modEq _ _).mul_left 2).add_right _
    have hround : bignumModFrom (.other a) m (bit + 1) r =
        bignumModFrom (.other a) m bit (if bignumCmp extended m ≠ .lt then bignumSub extended m else extended) := by
      rw [← hextEq]
      rfl
    rw [hround]
    by_cases hcmp : bignumCmp extended m ≠ .lt
    · rw [if_pos hcmp]
      have hge := (bignumCmp_ne_lt hext hm).mp hcmp
      obtain ⟨hsub, hsubValue⟩ := bignumSub_spec hext hm hge
      apply ih hsub
      rw [hsubValue, ← hmod, ← hextValue, Nat.mod_eq_sub_mod hge, Nat.mod_eq_of_lt (by omega)]
    · rw [if_neg hcmp]
      have hsmall := Nat.lt_of_not_le fun hge => hcmp ((bignumCmp_ne_lt hext hm).mpr hge)
      apply ih hext
      rw [← hmod, ← hextValue, Nat.mod_eq_of_lt hsmall]

structure Number where
  words : List UInt32
  trimmed : Trimmed words
  fits : words.length ≤ 2 * rsaMaxModulusWords

namespace Number

def value (n : Number) : Nat := wordsValue n.words

end Number

theorem bignumMod_other (old : List UInt32) (a m : Number) (hm : 1 < m.value) :
    wordsValue (bignumMod old (.other a.words) m.words) = a.value % m.value := by
  have hne : m.words ≠ [0] := by
    intro h
    rw [Number.value, h] at hm
    exact absurd hm (by decide)
  rw [bignumMod, if_neg hne]
  apply wordsValue_bignumModFrom m.trimmed (Nat.lt_of_succ_lt hm) a.fits (.inl rfl)
  have hlt := wordsValue_lt_bitLength a.trimmed.ne_nil
  show 0 = a.value / 2 ^ bignumBitLength a.words % m.value
  rw [Number.value, Nat.div_eq_of_lt hlt, Nat.zero_mod]

theorem bignumMod_result (old : List UInt32) (m : Number) (hm : 1 < m.value) :
    bignumMod old .result m.words = [0] := by
  have hne : m.words ≠ [0] := by
    intro h
    rw [Number.value, h] at hm
    exact absurd hm (by decide)
  have hbits : bignumBitLength [0] = 1 := by decide
  have hdouble : bignumShl1 [0] = [0] := by decide
  have hbit : bignumGetBit [0] 0 = false := by decide
  have hsmall : ¬ bignumCmp [0] m.words ≠ .lt := by
    rw [bignumCmp_ne_lt (.inl rfl) m.trimmed]
    exact Nat.not_le.mpr (Nat.lt_of_succ_lt hm)
  rw [bignumMod, if_neg hne]
  show bignumModFrom .result m.words (bignumBitLength [0]) [0] = [0]
  rw [hbits, bignumModFrom, bignumModFrom]
  simp only [ModOperand.words, hdouble, hbit, Bool.false_eq_true, if_false]
  rw [if_neg hsmall]

theorem bignumModpowFrom_eq_none (m : List UInt32) (rounds : Nat) (result base temp : List UInt32)
    {exp : List UInt32} (hexp : exp ≠ []) :
    bignumModpowFrom m rounds result base exp temp = none := by
  induction rounds generalizing result base exp temp with
  | zero => rfl
  | succ rounds ih =>
    rw [bignumModpowFrom, if_pos (List.length_pos_iff.mpr hexp)]
    exact ih _ _ _ (trimWords_spec _).1.ne_nil

def PowerReached (base exp m : Number) : Prop :=
  ∀ temp, ∃ rounds result, bignumModpow rounds base.words exp.words m.words temp = some result ∧
    wordsValue result = base.value ^ exp.value % m.value

/-- `bignum_modpow` never ends.  `bignum_mod` is right for another object, and for the object of the
result exactly on the multiples of the modulus. -/
theorem not_powerReached (base exp m : Number) (hm : 1 < m.value) : ¬ PowerReached base exp m ∧
      (∀ old, wordsValue (bignumMod old (.other base.words) m.words) = base.value % m.value) ∧
      (wordsValue (bignumMod base.words .result m.words) = base.value % m.value ↔
        m.value ∣ base.value) := by
  refine ⟨fun h => ?_, fun old => bignumMod_other old base m hm, ?_⟩
  · obtain ⟨rounds, result, hresult, -⟩ := h []
    rw [bignumModpow, bignumModpowFrom_eq_none _ _ _ _ _ exp.trimmed.ne_nil] at hresult
    cases hresult
  · rw [bignumMod_result base.words m hm, Nat.dvd_iff_mod_eq_zero]
    exact eq_comm

def smallNumber (w : UInt32) : Number where
  words := [w]
  trimmed := by
    by_cases hw : w = 0
    · exact .inl (by rw [hw])
    · exact .inr ⟨[], w, rfl, hw⟩
  fits := by
    show 1 ≤ 128
    decide

theorem not_powerReached_smallNumber :
    ¬ PowerReached (smallNumber 5) (smallNumber 3) (smallNumber 7) ∧
      (∀ old, wordsValue (bignumMod old (.other [5]) [7]) = 5) ∧
      wordsValue (bignumMod [5] .result [7]) ≠ 5 := by
  obtain ⟨hpower, hother, hresult⟩ := not_powerReached (smallNumber 5) (smallNumber 3) (smallNumber 7) (by decide)
  exact ⟨hpower, hother, fun h => absurd (hresult.mp h) (by decide)⟩

theorem not_bignumModpow_power : ¬ ∀ base exp m : Number, 1 < m.value → PowerReached base exp m ∧
      wordsValue (bignumMod base.words .result m.words) = base.value % m.value := by
  intro h
  obtain ⟨rounds, result, hresult, -⟩ := (h (smallNumber 5) (smallNumber 3) (smallNumber 7) (by decide)).1 []
  rw [bignumModpow, bignumModpowFrom_eq_none _ _ _ _ _ (smallNumber 3).trimmed.ne_nil] at hresult
  cases hresult

end Monios.Analysis.GeneralPower
