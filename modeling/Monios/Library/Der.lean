import Mathlib.Data.Nat.Digits.Lemmas
import Monios.Library.Bytes

/-!
# Values with a tag and a length

The encoding of a value in DER, for tags of one byte: the tag, the length of the content, and the
content. A length below 128 is one byte, and a longer one is the number of its bytes, with the
highest bit set, and the bytes themselves, the highest one first and not zero.
-/

set_option autoImplicit false

namespace Monios.Library

/-! ## Lengths -/

def bigEndianBytes (n : Nat) : List UInt8 := ((Nat.digits 256 n).map UInt8.ofNat).reverse

def lengthBytes (n : Nat) : List UInt8 :=
  if n < 0x80 then [UInt8.ofNat n] else UInt8.ofNat (0x80 + (bigEndianBytes n).length) :: bigEndianBytes n

def tlv (tag : UInt8) (content : List UInt8) : List UInt8 :=
  tag :: (lengthBytes content.length ++ content)

def headerLength (n : Nat) : Nat := (lengthBytes n).length + 1

theorem length_tlv (tag : UInt8) (content : List UInt8) :
    (tlv tag content).length = headerLength content.length + content.length := by
  unfold tlv headerLength
  rw [List.length_cons, List.length_append]
  omega

theorem one_le_length_lengthBytes (n : Nat) : 1 ≤ (lengthBytes n).length := by
  unfold lengthBytes
  split
  · exact Nat.le_refl _
  · exact Nat.succ_pos _

theorem length_bigEndianBytes (n : Nat) :
    (bigEndianBytes n).length = (Nat.digits 256 n).length := by
  rw [bigEndianBytes, List.length_reverse, List.length_map]

theorem length_bigEndianBytes_le {n k : Nat} (h : n < 256 ^ k) : (bigEndianBytes n).length ≤ k := by
  rw [length_bigEndianBytes]
  exact (Nat.digits_length_le_iff (by decide) n).mpr h

theorem foldl_bigEndianBytes (n : Nat) :
    (bigEndianBytes n).foldl (fun v b => v * 256 + b.toNat) 0 = n := by
  have hdigits : ∀ l : List Nat, (∀ x ∈ l, x < 256) →
      ((l.map UInt8.ofNat).reverse).foldl (fun v b => v * 256 + b.toNat) 0 = Nat.ofDigits 256 l := by
    intro l hl
    induction l with
    | nil => rfl
    | cons x l ih =>
      have hx := hl x List.mem_cons_self
      rw [List.map_cons, List.reverse_cons, List.foldl_append,
        ih fun y hy => hl y (List.mem_cons_of_mem _ hy),
        Nat.ofDigits_cons, List.foldl_cons, List.foldl_nil, UInt8.toNat_ofNat', Nat.mod_eq_of_lt hx]
      omega
  unfold bigEndianBytes
  rw [hdigits _ fun x hx => Nat.digits_lt_base (by decide) hx, Nat.ofDigits_digits]

theorem bigEndianBytes_head {n : Nat} (h : n ≠ 0) :
    ∃ b rest, bigEndianBytes n = b :: rest ∧ b ≠ 0 := by
  have hne : Nat.digits 256 n ≠ [] := mt Nat.digits_eq_nil_iff_eq_zero.mp h
  have hlast := Nat.getLast_digit_ne_zero 256 h
  have hlt := Nat.digits_lt_base (b := 256) (m := n) (by decide) (List.getLast_mem hne)
  refine ⟨UInt8.ofNat ((Nat.digits 256 n).getLast hne), ((Nat.digits 256 n).dropLast.map UInt8.ofNat).reverse, ?_, ?_⟩
  · unfold bigEndianBytes
    conv_lhs => rw [← List.dropLast_append_getLast hne]
    simp
  · intro hzero
    have hvalue := congrArg UInt8.toNat hzero
    rw [UInt8.toNat_ofNat', Nat.mod_eq_of_lt hlt] at hvalue
    exact hlast hvalue

theorem headerLength_mono {n m : Nat} (h : n ≤ m) : headerLength n ≤ headerLength m := by
  have hdigits := Nat.le_length_digits_le 256 n m h
  unfold headerLength lengthBytes
  rw [← length_bigEndianBytes, ← length_bigEndianBytes] at hdigits
  split
  · split
    · exact Nat.le_refl _
    · simp
  · rw [if_neg (by omega), List.length_cons, List.length_cons]
    omega

theorem length_tlv_mono {tag tag' : UInt8} {content content' : List UInt8}
    (h : content.length ≤ content'.length) :
    (tlv tag content).length ≤ (tlv tag' content').length := by
  rw [length_tlv, length_tlv]
  exact Nat.add_le_add (headerLength_mono h) h

/-! ## Bytes at an offset -/

def HoldsAt (d : List UInt8) (p : Nat) (w : List UInt8) : Prop := w <+: d.drop p

namespace HoldsAt

variable {d : List UInt8} {p : Nat} {u v w : List UInt8}

theorem self (w : List UInt8) : HoldsAt w 0 w := List.prefix_refl w

theorem left (h : HoldsAt d p (u ++ v)) : HoldsAt d p u := (List.prefix_append u v).trans h

theorem right (h : HoldsAt d p (u ++ v)) : HoldsAt d (p + u.length) v := by
  obtain ⟨rest, hrest⟩ := h
  refine ⟨rest, ?_⟩
  rw [← List.drop_drop, ← hrest, List.append_assoc, List.drop_left]

theorem getD (h : HoldsAt d p w) {i : Nat} (hi : i < w.length) : d.getD (p + i) 0 = w.getD i 0 := by
  obtain ⟨rest, hrest⟩ := h
  have hget : d[p + i]? = w[i]? := by
    rw [← List.getElem?_drop, ← hrest, List.getElem?_append_left hi]
  rw [List.getD_eq_getElem?_getD, List.getD_eq_getElem?_getD, hget]

theorem slice (h : HoldsAt d p w) {n : Nat} (hn : n ≤ w.length) : slice d p n = w.take n := by
  obtain ⟨rest, hrest⟩ := h
  unfold Library.slice
  rw [← hrest, List.take_append_of_le_length hn]

end HoldsAt

end Monios.Library
