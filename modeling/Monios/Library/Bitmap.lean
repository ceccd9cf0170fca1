import Mathlib.Algebra.Order.Ring.Int
import Mathlib.Data.Fintype.Card

/-!
# Bitmaps

A bitmap over a finite index type as a function into `Bool`, with the number of its set bits and
what becomes of it when one bit is written. `firstClear` is the search that a bitmap allocator
makes.
-/

set_option autoImplicit false

namespace Monios.Library.Bitmap

section

variable {ι : Type*} [Fintype ι]

def popcount (f : ι → Bool) : Nat := (Finset.univ.filter fun i => f i = true).card

theorem popcount_set [DecidableEq ι] {f : ι → Bool} {i : ι} (h : f i = false) :
    popcount (Function.update f i true) = popcount f + 1 := by
  have hinsert : (Finset.univ.filter fun j => Function.update f i true j = true) =
      insert i (Finset.univ.filter fun j => f j = true) := by
    ext j
    simp only [Finset.mem_filter, Finset.mem_univ, true_and, Finset.mem_insert]
    by_cases hj : j = i
    · simp [hj]
    · simp [hj]
  unfold popcount
  rw [hinsert, Finset.card_insert_of_notMem (by simp [h])]

theorem popcount_clear [DecidableEq ι] {f : ι → Bool} {i : ι} (h : f i = true) :
    popcount (Function.update f i false) + 1 = popcount f := by
  have hset : Function.update (Function.update f i false) i true = f := by
    rw [Function.update_idem, ← h, Function.update_eq_self]
  rw [← popcount_set (Function.update_self i false f), hset]

theorem popcount_zero : popcount (fun _ : ι => false) = 0 := by
  unfold popcount
  rw [Finset.card_eq_zero]
  exact Finset.filter_false_of_mem fun _ _ => Bool.false_ne_true

theorem popcount_le_card (f : ι → Bool) : popcount f ≤ Fintype.card ι := Finset.card_le_univ _

theorem popcount_eq_card {f : ι → Bool} (h : popcount f = Fintype.card ι) (i : ι) : f i = true := by
  have huniv := Finset.eq_univ_of_card _ h
  have hi := Finset.mem_univ i
  rw [← huniv, Finset.mem_filter] at hi
  exact hi.2

theorem popcount_pos [DecidableEq ι] {f : ι → Bool} {i : ι} (h : f i = true) : 0 < popcount f := by
  rw [← popcount_clear h]
  exact Nat.succ_pos _

end

def firstClear {n : Nat} (f : Fin n → Bool) : Option (Fin n) :=
  (List.finRange n).find? fun i => !f i

section

variable {n : Nat} {f : Fin n → Bool} {i : Fin n}

theorem firstClear_some (h : firstClear f = some i) : f i = false := by
  have := List.find?_some h
  simpa using this

theorem firstClear_none : firstClear f = none ↔ ∀ i, f i = true := by
  unfold firstClear
  rw [List.find?_eq_none]
  simp

theorem firstClear_update (h : ∀ j, f j = true) (i : Fin n) :
    firstClear (Function.update f i false) = some i := by
  cases hfind : firstClear (Function.update f i false) with
  | none =>
    have := firstClear_none.mp hfind i
    rw [Function.update_self] at this
    exact absurd this Bool.false_ne_true
  | some j =>
    have hj := firstClear_some hfind
    by_cases hji : j = i
    · rw [hji]
    · rw [Function.update_of_ne hji, h j] at hj
      exact absurd hj.symm Bool.false_ne_true

end

end Monios.Library.Bitmap
