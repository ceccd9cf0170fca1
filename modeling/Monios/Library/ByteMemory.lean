import Mathlib.Algebra.Order.Ring.Int
import Mathlib.Data.List.GetD

/-!
# A memory of bytes

A memory is a function from addresses to bytes. `store` and `load` write and read a list, and
`copyBytes` copies byte by byte with growing addresses.
-/

set_option autoImplicit false

namespace Monios.Library

def store (m : Nat → UInt8) (a : Nat) (bytes : List UInt8) : Nat → UInt8 :=
  fun x => if a ≤ x ∧ x < a + bytes.length then bytes.getD (x - a) 0 else m x

def load (m : Nat → UInt8) (a n : Nat) : List UInt8 := (List.range n).map fun k => m (a + k)

def copyBytes (dst src : Nat) : Nat → (Nat → UInt8) → Nat → UInt8
  | 0, m => m
  | n + 1, m => copyBytes (dst + 1) (src + 1) n (Function.update m dst (m src))

section

variable {m : Nat → UInt8} {a n x : Nat} {bytes : List UInt8}

theorem store_frame (h : x < a ∨ a + bytes.length ≤ x) : store m a bytes x = m x :=
  if_neg (by omega)

theorem store_add {k : Nat} (h : k < bytes.length) : store m a bytes (a + k) = bytes.getD k 0 := by
  unfold store
  rw [if_pos (by omega), Nat.add_sub_cancel_left]

@[simp] theorem length_load (m : Nat → UInt8) (a n : Nat) :
    (load m a n).length = n := by simp [load]

theorem getElem?_load (m : Nat → UInt8) (a : Nat) {n k : Nat} (h : k < n) :
    (load m a n)[k]? = some (m (a + k)) := by
  unfold load
  rw [List.getElem?_map, List.getElem?_range h]
  rfl

theorem load_store (m : Nat → UInt8) (a : Nat) (bytes : List UInt8) :
    load (store m a bytes) a bytes.length = bytes := by
  apply List.ext_getElem?
  intro k
  by_cases hk : k < bytes.length
  · rw [getElem?_load _ _ hk, store_add hk, List.getD_eq_getElem?_getD,
      List.getElem?_eq_getElem hk, Option.getD_some]
  · rw [List.getElem?_eq_none (by rw [length_load]; omega), List.getElem?_eq_none (by omega)]

theorem copyBytes_frame {dst : Nat} (src n : Nat) (m : Nat → UInt8) (h : x < dst ∨ dst + n ≤ x) :
    copyBytes dst src n m x = m x := by
  induction n generalizing dst src m with
  | zero => rfl
  | succ n ih =>
    unfold copyBytes
    rw [ih _ _ (by omega), Function.update_of_ne (by omega)]

theorem copyBytes_overlap {dst src d : Nat} (hd : 0 < d) (hdst : dst = src + d) (m : Nat → UInt8)
    {n k : Nat} (hk : k < n) :
    copyBytes dst src n m (dst + k) = m (src + k % d) := by
  induction n generalizing dst src k m with
  | zero => exact absurd hk (Nat.not_lt_zero k)
  | succ n ih =>
    unfold copyBytes
    cases k with
    | zero =>
      simp only [Nat.add_zero, Nat.zero_mod]
      rw [copyBytes_frame _ _ _ (Or.inl (Nat.lt_add_one dst)), Function.update_self]
    | succ k =>
      have hlt := Nat.mod_lt k hd
      have hmod : (k + 1) % d = (k % d + 1) % d := (Nat.mod_add_mod k d 1).symm
      rw [show dst + (k + 1) = dst + 1 + k by omega, ih (by omega) _ (Nat.lt_of_succ_lt_succ hk),
        hmod]
      by_cases hwrap : k % d + 1 = d
      · rw [hwrap, Nat.mod_self, show src + 1 + k % d = dst by omega, Function.update_self,
          Nat.add_zero]
      · have hsmall : k % d + 1 < d := by omega
        rw [Nat.mod_eq_of_lt hsmall, Function.update_of_ne (by omega), Nat.add_assoc,
          Nat.add_comm 1]

end

end Monios.Library
