import Mathlib.Data.Nat.Digits.Lemmas

/-!
# Numbers in several words

The value of a little-endian list of 32-bit words and of one of bytes. Since a word is below the
base by its type, a list of known length is determined by its value (`bytesValue_inj`), and a value
is bounded by the length alone.
-/

set_option autoImplicit false

namespace Monios.Library

def wordsValue (words : List UInt32) : Nat := Nat.ofDigits (2 ^ 32) (words.map UInt32.toNat)

def bytesValue (bytes : List UInt8) : Nat := Nat.ofDigits 256 (bytes.map UInt8.toNat)

/-! ## Words -/

@[simp] theorem wordsValue_nil : wordsValue [] = 0 := rfl

@[simp] theorem wordsValue_cons (w : UInt32) (ws : List UInt32) :
    wordsValue (w :: ws) = w.toNat + 2 ^ 32 * wordsValue ws := by
  simp [wordsValue, Nat.ofDigits_cons]

theorem wordsValue_append (u v : List UInt32) :
    wordsValue (u ++ v) = wordsValue u + 2 ^ (32 * u.length) * wordsValue v := by
  unfold wordsValue
  rw [List.map_append, Nat.ofDigits_append, List.length_map, Nat.pow_mul]

theorem wordsValue_lt (words : List UInt32) : wordsValue words < 2 ^ (32 * words.length) := by
  have h := Nat.ofDigits_lt_base_pow_length (b := 2 ^ 32) (l := words.map UInt32.toNat) (by norm_num) (by
    intro x hx
    obtain ⟨w, -, rfl⟩ := List.mem_map.mp hx
    exact w.toNat_lt)
  rw [List.length_map, ← Nat.pow_mul] at h
  exact h

@[simp] theorem wordsValue_replicate_zero (n : Nat) : wordsValue (List.replicate n 0) = 0 := by
  induction n with
  | zero => rfl
  | succ n ih => simp [List.replicate_succ, ih]

theorem wordsValue_pos {words : List UInt32} {w : UInt32} (hw : w ≠ 0) :
    2 ^ (32 * words.length) ≤ wordsValue (words ++ [w]) := by
  have hpos : 1 ≤ w.toNat := Nat.one_le_iff_ne_zero.mpr fun h => hw (UInt32.toNat_inj.mp h)
  rw [wordsValue_append]
  calc 2 ^ (32 * words.length) = 2 ^ (32 * words.length) * 1 := (Nat.mul_one _).symm
    _ ≤ 2 ^ (32 * words.length) * w.toNat := Nat.mul_le_mul_left _ hpos
    _ ≤ wordsValue words + 2 ^ (32 * words.length) * wordsValue [w] := by simp

/-! ## Bytes -/

@[simp] theorem bytesValue_nil : bytesValue [] = 0 := rfl

@[simp] theorem bytesValue_cons (b : UInt8) (bs : List UInt8) :
    bytesValue (b :: bs) = b.toNat + 256 * bytesValue bs := by
  simp [bytesValue, Nat.ofDigits_cons]

theorem bytesValue_append (u v : List UInt8) :
    bytesValue (u ++ v) = bytesValue u + 256 ^ u.length * bytesValue v := by
  unfold bytesValue
  rw [List.map_append, Nat.ofDigits_append, List.length_map]

theorem bytesValue_lt (bytes : List UInt8) : bytesValue bytes < 256 ^ bytes.length := by
  have h := Nat.ofDigits_lt_base_pow_length (b := 256) (l := bytes.map UInt8.toNat) (by norm_num) (by
    intro x hx
    obtain ⟨b, -, rfl⟩ := List.mem_map.mp hx
    exact b.toNat_lt)
  rwa [List.length_map] at h

@[simp] theorem bytesValue_replicate_zero (n : Nat) : bytesValue (List.replicate n 0) = 0 := by
  induction n with
  | zero => rfl
  | succ n ih => simp [List.replicate_succ, ih]

theorem bytesValue_inj {u v : List UInt8} (hlen : u.length = v.length)
    (h : bytesValue u = bytesValue v) : u = v := by
  have hlt : ∀ bytes : List UInt8, ∀ x ∈ bytes.map UInt8.toNat, x < 256 := by
    intro bytes x hx
    obtain ⟨b, -, rfl⟩ := List.mem_map.mp hx
    exact b.toNat_lt
  have hmap := Nat.ofDigits_inj_of_len_eq (by norm_num) (by simpa using hlen) (hlt u) (hlt v) h
  exact List.map_injective_iff.mpr (fun a b hab => UInt8.toNat_inj.mp hab) hmap

theorem bytesValue_take (bytes : List UInt8) (n : Nat) (hn : n ≤ bytes.length) :
    bytesValue (bytes.take n) = bytesValue bytes % 256 ^ n := by
  have hlen : (bytes.take n).length = n := List.length_take_of_le hn
  have hsplit : bytesValue bytes = bytesValue (bytes.take n) +
      256 ^ n * bytesValue (bytes.drop n) := by
    have h := bytesValue_append (bytes.take n) (bytes.drop n)
    rwa [List.take_append_drop, hlen] at h
  have hlt : bytesValue (bytes.take n) < 256 ^ n := by
    have h := bytesValue_lt (bytes.take n)
    rwa [hlen] at h
  rw [hsplit, Nat.add_mul_mod_self_left, Nat.mod_eq_of_lt hlt]

end Monios.Library
