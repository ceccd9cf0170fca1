import Mathlib.Data.Nat.ModEq

/-!
# Sums with end-around carry

`carry b` adds what a number has beyond one digit of base `b` to that digit. It keeps the number
modulo `b - 1` and keeps it positive, and from below `b ^ 2` two rounds lead to one digit.
-/

set_option autoImplicit false

namespace Monios.Library

def carry (b s : Nat) : Nat := s % b + s / b

variable {b : Nat}

theorem carry_modEq (hb : 0 < b) (s : Nat) : carry b s ≡ s [MOD b - 1] := by
  have hbase : b ≡ 1 [MOD b - 1] := (Nat.modEq_iff_dvd' hb).mpr (Nat.dvd_refl _) |>.symm
  calc s % b + s / b = s % b + 1 * (s / b) := by rw [Nat.one_mul]
    _ ≡ s % b + b * (s / b) [MOD b - 1] := Nat.ModEq.add_left _ (hbase.symm.mul_right _)
    _ = s := Nat.mod_add_div s b

theorem carry_pos {s : Nat} (hs : 0 < s) : 0 < carry b s := by
  unfold carry
  by_cases hmod : s % b = 0
  · have hdiv : s / b ≠ 0 := fun h => by
      have := Nat.mod_add_div s b
      rw [hmod, h] at this
      omega
    exact Nat.add_pos_right _ (Nat.pos_of_ne_zero hdiv)
  · exact Nat.add_pos_left (Nat.pos_of_ne_zero hmod) _

theorem carry_of_lt {s : Nat} (hs : s < b) : carry b s = s := by
  rw [carry, Nat.mod_eq_of_lt hs, Nat.div_eq_of_lt hs, Nat.add_zero]

theorem carry_lt_two_mul {s : Nat} (hs : s < b * b) : carry b s ≤ 2 * (b - 1) := by
  have hb : 0 < b := Nat.pos_of_ne_zero fun h => by simp [h] at hs
  have hmod := Nat.mod_lt s hb
  have hdiv : s / b < b := Nat.div_lt_of_lt_mul hs
  unfold carry
  omega

theorem carry_lt {s : Nat} (hb : 1 < b) (hs : s ≤ 2 * (b - 1)) : carry b s < b := by
  by_cases hlt : s < b
  · rwa [carry_of_lt hlt]
  · have hdiv : s / b = 1 := Nat.div_eq_of_lt_le (by omega) (by omega)
    have hmod := Nat.mod_add_div s b
    rw [hdiv] at hmod
    unfold carry
    omega

theorem carry_iterate_modEq (hb : 0 < b) (n s : Nat) : (carry b)^[n] s ≡ s [MOD b - 1] := by
  induction n generalizing s with
  | zero => rfl
  | succ n ih => exact (ih (carry b s)).trans (carry_modEq hb s)

theorem carry_iterate_pos (n : Nat) {s : Nat} (hs : 0 < s) : 0 < (carry b)^[n] s := by
  induction n generalizing s with
  | zero => exact hs
  | succ n ih => exact ih (carry_pos hs)

theorem carry_iterate_lt (hb : 1 < b) {n s : Nat} (hn : 2 ≤ n) (hs : s < b * b) :
    (carry b)^[n] s < b := by
  obtain ⟨n, rfl⟩ := Nat.exists_eq_add_of_le' hn
  have htwo : carry b (carry b s) < b := carry_lt hb (carry_lt_two_mul hs)
  show (carry b)^[n] (carry b (carry b s)) < b
  rw [Function.iterate_fixed (carry_of_lt htwo)]
  exact htwo

theorem carry_iterate_eq_iff (hb : 1 < b) {n s : Nat} (hn : 2 ≤ n) (hpos : 0 < s) (hs : s < b * b) :
    (carry b)^[n] s = b - 1 ↔ b - 1 ∣ s := by
  have hmod := carry_iterate_modEq (Nat.lt_of_succ_lt hb) n s
  have hlt := carry_iterate_lt hb hn hs
  have hfold := carry_iterate_pos (b := b) n hpos
  rw [← Nat.modEq_zero_iff_dvd]
  constructor
  · intro h
    rw [h] at hmod
    exact hmod.symm.trans (Nat.modEq_zero_iff_dvd.mpr (Nat.dvd_refl _))
  · intro h
    obtain ⟨k, hk⟩ := Nat.modEq_zero_iff_dvd.mp (hmod.trans h)
    cases k with
    | zero => omega
    | succ k =>
      rw [Nat.mul_succ] at hk
      omega

end Monios.Library
