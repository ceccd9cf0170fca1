import Mathlib.Algebra.Order.Ring.Int
import Mathlib.Data.List.GetD
import Mathlib.Data.List.TakeDrop

/-!
# Little-endian fields in byte lists

Reading and writing 16- and 32-bit little-endian values in a list of bytes. A read past the end sees
zero; a result about a read that stays inside the list is obtained from one of the two rules
`readU32_congr` (a read only depends on the bytes it covers) and `readU32_append` (a value written
into a list is read back).
-/

set_option autoImplicit false

namespace Monios.Library

def byteAt (d : List UInt8) (i : Nat) : Nat := (d.getD i 0).toNat

def readU16 (d : List UInt8) (o : Nat) : Nat := byteAt d o + 256 * byteAt d (o + 1)

def readU32 (d : List UInt8) (o : Nat) : Nat := readU16 d o + 65536 * readU16 d (o + 2)

def le16 (v : Nat) : List UInt8 := [UInt8.ofNat v, UInt8.ofNat (v / 256)]

def le32 (v : Nat) : List UInt8 := le16 v ++ le16 (v / 65536)

def slice (d : List UInt8) (o n : Nat) : List UInt8 := (d.drop o).take n

@[simp] theorem length_le16 (v : Nat) : (le16 v).length = 2 := rfl

@[simp] theorem length_le32 (v : Nat) : (le32 v).length = 4 := rfl

theorem byteAt_lt (d : List UInt8) (i : Nat) : byteAt d i < 256 := UInt8.toNat_lt _

/-! ## A read depends on the bytes it covers -/

theorem byteAt_congr {d e : List UInt8} {i : Nat} (h : d.getD i 0 = e.getD i 0) :
    byteAt d i = byteAt e i := by
  unfold byteAt
  rw [h]

theorem readU16_congr {d e : List UInt8} {o : Nat}
    (h : ∀ i, o ≤ i → i < o + 2 → d.getD i 0 = e.getD i 0) : readU16 d o = readU16 e o := by
  unfold readU16
  rw [byteAt_congr (h o (by omega) (by omega)), byteAt_congr (h (o + 1) (by omega) (by omega))]

theorem readU32_congr {d e : List UInt8} {o : Nat}
    (h : ∀ i, o ≤ i → i < o + 4 → d.getD i 0 = e.getD i 0) : readU32 d o = readU32 e o := by
  unfold readU32
  rw [readU16_congr fun i h1 h2 => h i h1 (by omega), readU16_congr fun i h1 h2 => h i (by omega) (by omega)]

/-! ## A read inside a concatenation -/

theorem getD_append_add (d e : List UInt8) (i : Nat) :
    (d ++ e).getD (d.length + i) 0 = e.getD i 0 := by
  rw [List.getD_append_right _ _ _ _ (by omega), Nat.add_sub_cancel_left]

theorem readU16_append (d e : List UInt8) (o : Nat) :
    readU16 (d ++ e) (d.length + o) = readU16 e o := by
  unfold readU16 byteAt
  rw [Nat.add_assoc, getD_append_add, getD_append_add]

theorem readU32_append (d e : List UInt8) (o : Nat) :
    readU32 (d ++ e) (d.length + o) = readU32 e o := by
  unfold readU32
  rw [Nat.add_assoc, readU16_append, readU16_append]

theorem readU16_skip {d : List UInt8} {o n : Nat} (e : List UInt8) (hd : d.length = n) (h : n ≤ o) :
    readU16 (d ++ e) o = readU16 e (o - n) := by
  subst hd
  obtain ⟨k, rfl⟩ := Nat.exists_eq_add_of_le h
  rw [readU16_append, Nat.add_sub_cancel_left]

theorem readU32_skip {d : List UInt8} {o n : Nat} (e : List UInt8) (hd : d.length = n) (h : n ≤ o) :
    readU32 (d ++ e) o = readU32 e (o - n) := by
  subst hd
  obtain ⟨k, rfl⟩ := Nat.exists_eq_add_of_le h
  rw [readU32_append, Nat.add_sub_cancel_left]

/-! ## Slices -/

theorem slice_append_left {d : List UInt8} {o n : Nat} (e : List UInt8) (h : o + n ≤ d.length) :
    slice (d ++ e) o n = slice d o n := by
  unfold slice
  rw [List.drop_append_of_le_length (by omega), List.take_append_of_le_length]
  rw [List.length_drop]
  omega

theorem slice_append_right (d e : List UInt8) (o n : Nat) :
    slice (d ++ e) (d.length + o) n = slice e o n := by
  unfold slice
  rw [← List.drop_drop, List.drop_left]

theorem slice_part (d e f : List UInt8) : slice (d ++ (e ++ f)) d.length e.length = e := by
  unfold slice
  rw [List.drop_left, List.take_left]

theorem slice_take {d : List UInt8} {o n m : Nat} (h : o + n ≤ m) :
    slice (d.take m) o n = slice d o n := by
  unfold slice
  rw [List.drop_take, List.take_take, Nat.min_eq_left (by omega)]

/-! ## What is written is read back -/

theorem readU16_le16 {v : Nat} (hv : v < 65536) (e : List UInt8) : readU16 (le16 v ++ e) 0 = v := by
  have h0 : byteAt (le16 v ++ e) 0 = v % 256 := by
    show (UInt8.ofNat v).toNat = v % 256
    exact UInt8.toNat_ofNat'
  have h1 : byteAt (le16 v ++ e) (0 + 1) = v / 256 % 256 := by
    show (UInt8.ofNat (v / 256)).toNat = v / 256 % 256
    exact UInt8.toNat_ofNat'
  unfold readU16
  rw [h0, h1]
  omega

theorem le16_mod (v : Nat) : le16 (v % 65536) = le16 v := by
  unfold le16
  have h0 : UInt8.ofNat (v % 65536) = UInt8.ofNat v := by
    apply UInt8.toNat_inj.mp
    rw [UInt8.toNat_ofNat', UInt8.toNat_ofNat']
    omega
  have h1 : UInt8.ofNat (v % 65536 / 256) = UInt8.ofNat (v / 256) := by
    apply UInt8.toNat_inj.mp
    rw [UInt8.toNat_ofNat', UInt8.toNat_ofNat']
    omega
  rw [h0, h1]

theorem readU32_le32 {v : Nat} (hv : v < 2 ^ 32) (e : List UInt8) :
    readU32 (le32 v ++ e) 0 = v := by
  unfold readU32 le32
  rw [List.append_assoc]
  have hlow : readU16 (le16 v ++ (le16 (v / 65536) ++ e)) 0 = v % 65536 := by
    rw [← le16_mod]
    exact readU16_le16 (by omega) _
  have hhigh : readU16 (le16 v ++ (le16 (v / 65536) ++ e)) (0 + 2) = v / 65536 := by
    have h := readU16_append (le16 v) (le16 (v / 65536) ++ e) 0
    rw [length_le16] at h
    rw [Nat.zero_add, h]
    exact readU16_le16 (by omega) _
  rw [hlow, hhigh]
  omega

end Monios.Library
