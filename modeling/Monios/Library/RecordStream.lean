import Mathlib.Algebra.Order.Ring.Int
import Mathlib.Data.List.Basic

/-!
# Streams of numbered records

A message is protected under its number, and a record is accepted under the number that comes next;
a record that is not accepted is left out, and the number stays. What is delivered is then
everything that was protected, if nothing happens between the two ends, and the first part of it, if
only the next record is ever accepted (`acceptFrom_isPrefix`).
-/

set_option autoImplicit false

namespace Monios.Library

structure RecordLayer (M R : Type) where
  protect : Nat → M → R
  accept : Nat → R → Option M

namespace RecordLayer

variable {M R F : Type} (L : RecordLayer M R)

def protectFrom : Nat → List M → List R
  | _, [] => []
  | n, m :: ms => L.protect n m :: protectFrom (n + 1) ms

def acceptFrom : Nat → List R → List (R × M)
  | _, [] => []
  | n, r :: rs =>
    match L.accept n r with
    | none => acceptFrom n rs
    | some m => (r, m) :: acceptFrom (n + 1) rs

variable {L} {n : Nat} {ms : List M} {rs : List R}

@[simp] theorem length_protectFrom : (L.protectFrom n ms).length = ms.length := by
  induction ms generalizing n with
  | nil => rfl
  | cons m ms ih => simp [protectFrom, ih]

theorem acceptFrom_protectFrom
    (h : ∀ k m, ms[k]? = some m → L.accept (n + k) (L.protect (n + k) m) = some m) :
    L.acceptFrom n (L.protectFrom n ms) = (L.protectFrom n ms).zip ms := by
  induction ms generalizing n with
  | nil => rfl
  | cons m ms ih =>
    have hhead := h 0 m rfl
    rw [Nat.add_zero] at hhead
    rw [protectFrom, acceptFrom, hhead]
    dsimp only
    rw [List.zip_cons_cons, ih]
    intro k m' hm'
    rw [Nat.add_right_comm]
    exact h (k + 1) m' hm'

theorem acceptFrom_isPrefix (look : R → F)
    (h : ∀ k r m, k ≤ ms.length → r ∈ rs → L.accept (n + k) r = some m →
      ms[k]? = some m ∧ look r = look (L.protect (n + k) m)) : (L.acceptFrom n rs).map (fun a =>
      (look a.1, a.2)) <+:
      ((L.protectFrom n ms).zip ms).map fun a => (look a.1, a.2) := by
  induction rs generalizing n ms with
  | nil => exact List.nil_prefix
  | cons r rs ih =>
    rw [acceptFrom]
    cases haccept : L.accept n r with
    | none => exact ih fun k r' m hk hr' => h k r' m hk (List.mem_cons_of_mem r hr')
    | some m =>
      obtain ⟨hnext, hlook⟩ := h 0 r m (Nat.zero_le _) List.mem_cons_self haccept
      cases ms with
      | nil => cases hnext
      | cons m' ms =>
        obtain rfl := Option.some.inj hnext
        rw [Nat.add_zero] at hlook
        rw [protectFrom, List.zip_cons_cons, List.map_cons, List.map_cons, hlook]
        apply List.prefix_cons_inj _ |>.mpr
        apply ih
        intro k r' m hk hr' hm
        rw [Nat.add_right_comm] at hm ⊢
        exact h (k + 1) r' m (Nat.succ_le_succ hk) (List.mem_cons_of_mem r hr') hm

end RecordLayer

end Monios.Library
