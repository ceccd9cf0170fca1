import Monios.Analysis.HashStreams
import Monios.Model.TlsPrf

/-!
# Derivation of the TLS keys

`tls_prf` against the expansion P_SHA256 of a secret, whose first seed is the label and the seed in
full.
-/

set_option autoImplicit false

namespace Monios.Analysis.KeyDerivation

open Monios.Library Monios.Library.MerkleDamgard
open Monios.Library.HashStandards (bigBytes)
open Monios.Model.Hash Monios.Model.TlsPrf
open Monios.Analysis.HashStreams

/-- The call computes P_SHA256 of the secret: `A(0)` is the label and the seed in full, the buffers
are large enough, and the output is the first bytes of the expansion. -/
def Expands (stack secret label seed : List UInt8) (outputLen : Nat) : Prop :=
  ∃ r, tlsPrf stack secret label seed outputLen true = some r ∧ (0 < outputLen → r.first = label ++ seed) ∧
    (∀ tmp ∈ r.tmps, tmp.length ≤ tmpSize) ∧ r.output = expansion (hmac HashStandards.sha256) secret (label ++ seed) outputLen

section

variable {mac : List UInt8 → List UInt8 → List UInt8} {size : Nat} {secret seed : List UInt8}

theorem rounds_output (hsize : ∀ key m, (mac key m).length = size) (hpos : 0 < size)
    (rounds i left : Nat) (hleft : left ≤ rounds) :
    (tlsPHashRounds mac size secret seed rounds (expansionSeed mac secret seed i) left).1 =
      ((List.range' i rounds).flatMap fun j => mac secret (expansionSeed mac secret seed (j + 1) ++
        seed)).take left := by
  induction rounds generalizing i left with
  | zero =>
    obtain rfl : left = 0 := by omega
    rfl
  | succ rounds ih =>
    unfold tlsPHashRounds
    by_cases hzero : left = 0
    · rw [if_pos hzero, hzero, List.take_zero]
    · have hnext := ih (i + 1) (left - min size left) (by omega)
      rw [if_neg hzero, List.range'_succ, List.flatMap_cons, List.take_append, hsize]
      dsimp only
      rw [show mac secret (expansionSeed mac secret seed i) = expansionSeed mac secret seed (i + 1) from rfl, hnext]
      rcases Nat.le_total size left with hle | hle
      · rw [Nat.min_eq_left hle, List.take_of_length_le (Nat.le_of_eq (hsize _ _)),
          List.take_of_length_le (Nat.le_trans (Nat.le_of_eq (hsize _ _)) hle)]
      · rw [Nat.min_eq_right hle, Nat.sub_self, Nat.sub_eq_zero_of_le hle]

theorem rounds_tmps (hsize : ∀ key m, (mac key m).length = size) (rounds : Nat) (a : List UInt8)
    (left : Nat) :
    ∀ tmp ∈ (tlsPHashRounds mac size secret seed rounds a left).2, tmp.length = size +
      seed.length := by
  induction rounds generalizing a left with
  | zero => simp [tlsPHashRounds]
  | succ rounds ih =>
    unfold tlsPHashRounds
    split
    · simp
    · intro tmp htmp
      rcases List.mem_cons.mp htmp with rfl | htmp
      · rw [List.length_append, hsize]
      · exact ih _ _ tmp htmp

end

theorem length_hmacSha256 (key m : List UInt8) : (hmacSha256 key m).length = 32 := by
  rw [hmacSha256_eq]
  simp [hmac, HashStandards.sha256, bigBytes, List.ofFn_succ]

theorem hmacSha256_fun : hmacSha256 = hmac HashStandards.sha256 := funext₂ hmacSha256_eq

theorem expands_of_length {stack secret label seed : List UInt8} {outputLen : Nat}
    (h : (label ++ seed).length = 32) :
    Expands stack secret label seed outputLen := by
  have hfirst : (label ++ seed).take 32 ++ (stack.take 32).drop (label ++ seed).length =
      label ++ seed := by
    rw [List.take_of_length_le (Nat.le_of_eq h), h, List.drop_of_length_le (by simp),
      List.append_nil]
  have hroom : ¬ combinedSeedSize < label.length + seed.length := by
    rw [← List.length_append, h]
    decide
  refine ⟨tlsPHash stack secret (label ++ seed) outputLen true, if_neg hroom, fun _ => hfirst,
    fun tmp htmp => ?_, ?_⟩
  · have htmp := rounds_tmps length_hmacSha256 outputLen _ outputLen tmp htmp
    rw [h] at htmp
    rw [htmp]
    decide
  · have houtput := @rounds_output hmacSha256 32 secret (label ++ seed) length_hmacSha256 (by decide) outputLen 0 outputLen
      (Nat.le_refl _)
    unfold tlsPHash
    dsimp only
    rw [if_pos rfl, if_pos rfl, hfirst]
    rw [← List.range_eq_range'] at houtput
    refine houtput.trans ?_
    rw [hmacSha256_fun]
    rfl

theorem expands_of_empty {stack secret label seed : List UInt8} (h : (label ++ seed).length ≤ 256) :
    Expands stack secret label seed 0 := by
  have hroom : ¬ combinedSeedSize < label.length + seed.length := by
    rw [← List.length_append]
    exact Nat.not_lt.mpr h
  exact ⟨_, if_neg hroom, fun hpos => absurd hpos (Nat.lt_irrefl 0),
    by simp [tlsPHash, tlsPHashRounds], rfl⟩

theorem length_of_expands {stack secret label seed : List UInt8} {outputLen : Nat}
    (hstack : stack.length = 32) (h : Expands stack secret label seed outputLen) :
    (label ++ seed).length = 32 ∨ outputLen = 0 ∧ (label ++ seed).length ≤ 256 := by
  obtain ⟨r, hr, hfirst, -⟩ := h
  unfold tlsPrf at hr
  split at hr
  · cases hr
  rename_i hroom
  obtain rfl := Option.some.inj hr
  rcases Nat.eq_zero_or_pos outputLen with hzero | hpos
  · rw [← List.length_append] at hroom
    exact .inr ⟨hzero, Nat.not_lt.mp hroom⟩
  · -- `a` is hashed with all its 32 bytes
    have hlength := congrArg List.length (hfirst hpos)
    unfold tlsPHash at hlength
    dsimp only at hlength
    rw [if_pos rfl, List.length_append, List.length_drop, List.length_take, List.length_take,
      hstack] at hlength
    exact .inl (by omega)

/-- The expansion is right exactly for a label and a seed of 32 bytes together, and where no output
is asked for. -/
theorem tlsPrf_expands_iff {stack : List UInt8} (hstack : stack.length = 32)
    (secret label seed : List UInt8) (outputLen : Nat) :
    Expands stack secret label seed outputLen ↔
      (label ++ seed).length = 32 ∨ outputLen = 0 ∧ (label ++ seed).length ≤ 256 := by
  constructor
  · exact length_of_expands hstack
  · rintro (h | ⟨rfl, h⟩)
    · exact expands_of_length h
    · exact expands_of_empty h

def masterLabel : List UInt8 :=
  [0x6D, 0x61, 0x73, 0x74, 0x65, 0x72, 0x20, 0x73, 0x65, 0x63, 0x72, 0x65, 0x74]

theorem tlsPrf_expands_iff_master :
    Expands (List.replicate 32 0) [] masterLabel (List.replicate 64 0) 48 ↔
    (masterLabel ++ List.replicate 64 0).length = 32 ∨ 48 = 0 ∧
      (masterLabel ++ List.replicate 64 0).length ≤ 256 :=
  tlsPrf_expands_iff (List.length_replicate ..) _ _ _ _

/-- The master secret is not derived from the two random numbers in full. -/
theorem not_expands_master : ¬ Expands (List.replicate 32 0) [] masterLabel (List.replicate 64 0) 48 := by
  intro h
  have hlength := length_of_expands (List.length_replicate ..) h
  revert hlength
  decide

end Monios.Analysis.KeyDerivation
