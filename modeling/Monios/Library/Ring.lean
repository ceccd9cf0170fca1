import Mathlib.Algebra.Order.Ring.Int
import Mathlib.Data.List.Basic

/-!
# Rings

A ring keeps a queue in the cells of an array, from a head on and around its end. `contents` is the
queue.
-/

set_option autoImplicit false

namespace Monios.Library.Ring

variable {α : Type*}

def contents (cells : Nat → α) (cap head count : Nat) : List α :=
  (List.range count).map fun i => cells ((head + i) % cap)

structure Valid (cap head tail count : Nat) : Prop where
  head_lt : head < cap
  count_le : count ≤ cap
  tail_eq : tail = (head + count) % cap

section

variable {cells : Nat → α} {cap head tail count k : Nat}

@[simp] theorem length_contents :
    (contents cells cap head count).length = count := by simp [contents]

theorem valid_empty (hcap : 0 < cap) : Valid cap 0 0 0 :=
  ⟨hcap, Nat.zero_le _, (Nat.zero_mod _).symm⟩

theorem Valid.tail_lt (h : Valid cap head tail count) : tail < cap := by
  rw [h.tail_eq]
  exact Nat.mod_lt _ (Nat.zero_lt_of_lt h.head_lt)

theorem mod_of_lt_two_mul {x : Nat} (h : x < 2 * cap) :
    x % cap = if x < cap then x else x - cap := by
  split
  · next hlt => exact Nat.mod_eq_of_lt hlt
  · next hge =>
    rw [Nat.mod_eq_sub_mod (Nat.not_lt.mp hge), Nat.mod_eq_of_lt (by omega)]

theorem Valid.take (h : Valid cap head tail count) (hk : k ≤ count) :
    Valid cap ((head + k) % cap) tail (count - k) := by
  have hcap := Nat.zero_lt_of_lt h.head_lt
  refine ⟨Nat.mod_lt _ hcap, ?_, ?_⟩
  · have := h.count_le
    omega
  · rw [Nat.mod_add_mod, h.tail_eq]
    congr 1
    omega

theorem Valid.put (h : Valid cap head tail count) (hk : count + k ≤ cap) :
    Valid cap head ((tail + k) % cap) (count + k) := by
  refine ⟨h.head_lt, hk, ?_⟩
  rw [h.tail_eq, Nat.mod_add_mod, Nat.add_assoc]

theorem contents_take (hk : k ≤ count) (hend : head + k ≤ cap) : contents cells cap head count =
      (List.range k).map (fun i => cells (head + i)) ++
      contents cells cap ((head + k) % cap) (count - k) := by
  obtain ⟨rest, rfl⟩ := Nat.exists_eq_add_of_le hk
  unfold contents
  rw [Nat.add_sub_cancel_left, List.range_add, List.map_append, List.map_map]
  congr 1
  · apply List.map_congr_left
    intro i hi
    have := List.mem_range.mp hi
    rw [Nat.mod_eq_of_lt (by omega)]
  · apply List.map_congr_left
    intro i _
    rw [Function.comp_apply, Nat.mod_add_mod, Nat.add_assoc]

theorem contents_put (h : Valid cap head tail count) {cells' : Nat → α} (d : List α)
    (hroom : count + d.length ≤ cap) (hend : tail + d.length ≤ cap)
    (hput : ∀ i (hi : i < d.length), cells' (tail + i) = d.get ⟨i, hi⟩)
    (hkeep : ∀ p, p < cap → p < tail ∨ tail + d.length ≤ p → cells' p = cells p) :
    contents cells' cap head (count + d.length) = contents cells cap head count ++ d := by
  have hcap := Nat.zero_lt_of_lt h.head_lt
  have hhead := h.head_lt
  have htail := h.tail_eq
  rw [mod_of_lt_two_mul (by omega)] at htail
  unfold contents
  rw [List.range_add, List.map_append, List.map_map]
  congr 1
  · apply List.map_congr_left
    intro i hi
    have hi := List.mem_range.mp hi
    apply hkeep _ (Nat.mod_lt _ hcap)
    rw [mod_of_lt_two_mul (by omega)]
    split at htail <;> split <;> omega
  · apply List.ext_get
    · simp
    · intro i hi hi'
      have hcell : (head + (count + i)) % cap = tail + i := by
        rw [mod_of_lt_two_mul (by omega)]
        split at htail <;> split <;> omega
      simp only [List.get_eq_getElem, List.getElem_map, Function.comp_apply, List.getElem_range]
      rw [hcell]
      exact hput i hi'

end

end Monios.Library.Ring
