import Monios.Library.Bytes
import Mathlib.Data.Fintype.Pi

/-!
# Buffers of a fixed number of bytes

A sector or a block is a function from its byte positions. `patch` is the copy of some bytes into a
buffer.
-/

set_option autoImplicit false

namespace Monios.Library

def Block (n : Nat) : Type := Fin n → UInt8

namespace Block

variable {n : Nat}

instance : DecidableEq (Block n) := inferInstanceAs (DecidableEq (Fin n → UInt8))

def zero : Block n := fun _ => 0

def byte (b : Block n) (i : Nat) : UInt8 := if h : i < n then b ⟨i, h⟩ else 0

def u16 (b : Block n) (o : Nat) : Nat := (b.byte o).toNat + 256 * (b.byte (o + 1)).toNat

def u32 (b : Block n) (o : Nat) : Nat := b.u16 o + 65536 * b.u16 (o + 2)

def patch (b : Block n) (o : Nat) (d : List UInt8) : Block n :=
  fun i => if o ≤ i.val ∧ i.val < o + d.length then d.getD (i.val - o) 0 else b i

def bytes (b : Block n) (o len : Nat) : List UInt8 :=
  (List.range len).map fun i => b.byte (o + i)

def ofBytes (d : List UInt8) : Block n := zero.patch 0 d

@[ext] theorem ext {a b : Block n} (h : ∀ i, i < n → a.byte i = b.byte i) : a = b := by
  funext i
  have hi := h i.val i.isLt
  unfold byte at hi
  rwa [dif_pos i.isLt, dif_pos i.isLt] at hi

theorem u16_lt (b : Block n) (o : Nat) : b.u16 o < 65536 := by
  have h1 := UInt8.toNat_lt (b.byte o)
  have h2 := UInt8.toNat_lt (b.byte (o + 1))
  unfold u16
  omega

theorem u32_lt (b : Block n) (o : Nat) : b.u32 o < 2 ^ 32 := by
  have h1 := u16_lt b o
  have h2 := u16_lt b (o + 2)
  unfold u32
  omega

@[simp] theorem byte_zero (i : Nat) : (zero : Block n).byte i = 0 := by
  unfold byte zero
  split <;> rfl

@[simp] theorem length_bytes (b : Block n) (o len : Nat) : (b.bytes o len).length = len := by
  simp [bytes]

/-! ## Reading a patched buffer -/

theorem byte_patch (b : Block n) (o : Nat) (d : List UInt8) {i : Nat} (hi : i < n) :
    (b.patch o d).byte i = if o ≤ i ∧ i < o + d.length then d.getD (i - o) 0 else b.byte i := by
  unfold byte patch
  rw [dif_pos hi, dif_pos hi]

theorem byte_patch_of_disjoint (b : Block n) {o i : Nat} {d : List UInt8}
    (h : i < o ∨ o + d.length ≤ i) : (b.patch o d).byte i = b.byte i := by
  by_cases hi : i < n
  · rw [byte_patch b o d hi, if_neg (by omega)]
  · unfold byte
    rw [dif_neg hi, dif_neg hi]

theorem byte_patch_self (b : Block n) {o i : Nat} {d : List UInt8} (hi : i < d.length)
    (hn : o + d.length ≤ n) : (b.patch o d).byte (o + i) = d.getD i 0 := by
  rw [byte_patch b o d (by omega), if_pos (by omega), Nat.add_sub_cancel_left]

theorem u16_patch_of_disjoint (b : Block n) {o p : Nat} {d : List UInt8}
    (h : p + 2 ≤ o ∨ o + d.length ≤ p) : (b.patch o d).u16 p = b.u16 p := by
  unfold u16
  rw [byte_patch_of_disjoint b (by omega), byte_patch_of_disjoint b (by omega)]

theorem u32_patch_of_disjoint (b : Block n) {o p : Nat} {d : List UInt8}
    (h : p + 4 ≤ o ∨ o + d.length ≤ p) : (b.patch o d).u32 p = b.u32 p := by
  unfold u32
  rw [u16_patch_of_disjoint b (by omega), u16_patch_of_disjoint b (by omega)]

theorem u16_patch_self (b : Block n) {o v : Nat} (hn : o + 2 ≤ n) :
    (b.patch o (le16 v)).u16 o = v % 65536 := by
  have h0 : (b.patch o (le16 v)).byte (o + 0) = UInt8.ofNat v :=
    byte_patch_self b (by simp) (by simpa using hn)
  have h1 : (b.patch o (le16 v)).byte (o + 1) = UInt8.ofNat (v / 256) :=
    byte_patch_self b (by simp) (by simpa using hn)
  unfold u16
  rw [Nat.add_zero] at h0
  rw [h0, h1, UInt8.toNat_ofNat', UInt8.toNat_ofNat']
  omega

theorem patch_append (b : Block n) (o : Nat) (d e : List UInt8) :
    b.patch o (d ++ e) = (b.patch o d).patch (o + d.length) e := by
  funext i
  unfold patch
  by_cases hd : o ≤ i.val ∧ i.val < o + d.length
  · rw [if_pos (by simp only [List.length_append]; omega), if_neg (by omega), if_pos hd,
      List.getD_append _ _ _ _ (by omega)]
  · by_cases he : o + d.length ≤ i.val ∧ i.val < o + d.length + e.length
    · rw [if_pos (by simp only [List.length_append]; omega), if_pos he, List.getD_append_right _ _ _ _ (by omega)]
      congr 1
      omega
    · rw [if_neg (by simp only [List.length_append]; omega), if_neg he, if_neg hd]

theorem u32_patch_self (b : Block n) {o v : Nat} (hv : v < 2 ^ 32) (hn : o + 4 ≤ n) :
    (b.patch o (le32 v)).u32 o = v := by
  have hp : b.patch o (le32 v) = (b.patch o (le16 v)).patch (o + 2) (le16 (v / 65536)) :=
    patch_append b o (le16 v) (le16 (v / 65536))
  unfold u32
  rw [hp, u16_patch_of_disjoint _ (by left; omega), u16_patch_self b (by omega), u16_patch_self _ (by omega)]
  omega

end Block

end Monios.Library
