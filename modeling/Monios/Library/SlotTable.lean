import Mathlib.Algebra.Order.Ring.Int
import Mathlib.Data.List.FinRange
import Mathlib.Data.List.Sort

/-!
# Tables of slots

A table with a fixed number of slots, each of them empty or with an entry. `entries` lists what is
in the table in the order of its slots.
-/

set_option autoImplicit false

namespace Monios.Library.SlotTable

variable {n : Nat} {α : Type*}

def entries (t : Fin n → Option α) : List (Fin n × α) :=
  (List.finRange n).filterMap fun i => (t i).map fun a => (i, a)

theorem mem_entries {t : Fin n → Option α} {i : Fin n} {a : α} :
    (i, a) ∈ entries t ↔ t i = some a := by
  unfold entries
  rw [List.mem_filterMap]
  constructor
  · rintro ⟨j, -, hj⟩
    obtain ⟨b, hb, heq⟩ := Option.map_eq_some_iff.mp hj
    obtain ⟨rfl, rfl⟩ := Prod.mk.inj heq
    exact hb
  · intro h
    exact ⟨i, List.mem_finRange i, by rw [h, Option.map_some]⟩

def Increasing (l : List (Fin n × α)) : Prop := l.Pairwise fun x y => x.1 < y.1

instance (l : List (Fin n × α)) : Decidable (Increasing l) :=
  inferInstanceAs (Decidable (l.Pairwise fun x y => x.1 < y.1))

theorem entries_increasing (t : Fin n → Option α) : Increasing (entries t) := by
  unfold Increasing entries
  rw [List.pairwise_filterMap]
  apply (List.pairwise_lt_finRange n).imp
  intro i j hij x hx y hy
  obtain ⟨a, -, rfl⟩ := Option.map_eq_some_iff.mp hx
  obtain ⟨b, -, rfl⟩ := Option.map_eq_some_iff.mp hy
  exact hij

theorem Increasing.nodup {l : List (Fin n × α)} (h : Increasing l) : l.Nodup :=
  h.imp fun hlt heq => absurd (congrArg Prod.fst heq) (ne_of_lt hlt)

theorem eq_entries {t : Fin n → Option α} {l : List (Fin n × α)} (hl : Increasing l)
    (hmem : ∀ i a, (i, a) ∈ l ↔ t i = some a) : l = entries t := by
  have hperm : l.Perm (entries t) := by
    rw [List.perm_ext_iff_of_nodup hl.nodup (entries_increasing t).nodup]
    rintro ⟨i, a⟩
    rw [hmem, mem_entries]
  exact hperm.eq_of_pairwise (fun x y _ _ hxy hyx => absurd hxy (lt_asymm hyx)) hl
    (entries_increasing t)

theorem find?_entries (t : Fin n → Option α) (p : α → Bool) :
    ((entries t).map Prod.snd).find? p = ((List.finRange n).find? fun i => (t i).any p).bind t := by
  unfold entries
  generalize List.finRange n = is
  induction is with
  | nil => rfl
  | cons i is ih =>
    cases hi : t i with
    | none => simp [hi, ih]
    | some a =>
      cases hp : p a with
      | true => simp [hi, hp]
      | false => simp [hi, hp, ih]

end Monios.Library.SlotTable
