import Mathlib.Algebra.Order.Ring.Int
import Mathlib.Data.List.Perm.Basic

/-!
# Climbing a list

A search that starts at a node, and goes from every node on to the first element of a list that may
come next, which is then taken out of the list, until a node is the last one. `climb` is the search,
with the rounds that are left; `Climbs` is the same search with any element that may come next in
place of the first one.
-/

set_option autoImplicit false

namespace Monios.Library

structure Climber (α : Type) where
  stop : α → Option Bool
  next : α → α → Bool
  admits : α → Bool
  finish : α → Bool

namespace Climber

variable {α : Type} (C : Climber α)

def climb : Nat → α → List α → Bool
  | 0, _, _ => false
  | n + 1, a, l =>
    match C.stop a with
    | some answer => answer
    | none =>
      match l.find? (C.next a) with
      | some b => if C.admits b then climb n b (l.eraseP (C.next a)) else false
      | none => C.finish a

inductive Climbs : α → List α → Bool → Prop
  | stop {a : α} {l : List α} {answer : Bool} (h : C.stop a = some answer) : Climbs a l answer
  | refused {a b : α} {l rest : List α} (hstop : C.stop a = none) (hl : l.Perm (b :: rest)) (hnext : C.next a b = true)
      (hb : C.admits b = false) : Climbs a l false
  | next {a b : α} {l rest : List α} {answer : Bool} (hstop : C.stop a = none) (hl : l.Perm (b :: rest))
      (hnext : C.next a b = true) (hb : C.admits b = true) (h : Climbs b rest answer) : Climbs a l answer
  | finish {a : α} {l : List α} (hstop : C.stop a = none) (h : ∀ b ∈ l, C.next a b = false) : Climbs a l (C.finish a)

variable {C}

theorem Climbs.perm {a : α} {l l' : List α} {answer : Bool} (h : C.Climbs a l answer)
    (hl : l.Perm l') :
    C.Climbs a l' answer := by
  cases h with
  | stop h => exact .stop h
  | refused hstop hrest hnext hb => exact .refused hstop (hl.symm.trans hrest) hnext hb
  | next hstop hrest hnext hb h => exact .next hstop (hl.symm.trans hrest) hnext hb h
  | finish hstop h => exact .finish hstop fun b hb => h b (hl.symm.subset hb)

theorem climbs_climb {n : Nat} {a : α} {l : List α} (hn : l.length < n) :
    C.Climbs a l (C.climb n a l) := by
  induction n generalizing a l with
  | zero => exact absurd hn (Nat.not_lt_zero _)
  | succ n ih =>
    unfold climb
    cases hstop : C.stop a with
    | some answer => exact .stop hstop
    | none =>
      cases hfind : l.find? (C.next a) with
      | none => exact .finish hstop fun b hb => by simpa using List.find?_eq_none.mp hfind b hb
      | some b =>
        have hnext := List.find?_some hfind
        obtain ⟨hb, front, back, rfl, hfront⟩ := List.find?_eq_some_iff_append.mp hfind
        have herase : (front ++ b :: back).eraseP (C.next a) = front ++ back := by
          rw [List.eraseP_append_right _ fun x hx => by simpa using hfront x hx,
            List.eraseP_cons_of_pos hb]
        have hperm : (front ++ b :: back).Perm (b :: (front ++ back)) := List.perm_middle
        rw [List.length_append, List.length_cons] at hn
        dsimp only
        by_cases hadmits : C.admits b = true
        · rw [if_pos hadmits, herase]
          exact .next hstop hperm hnext hadmits (ih (by rw [List.length_append]; omega))
        · rw [if_neg hadmits]
          exact .refused hstop hperm hnext (by simpa using hadmits)

theorem exists_perm_climb {a : α} {l : List α} {answer : Bool} (h : C.Climbs a l answer) {n : Nat}
    (hn : l.length < n) :
    ∃ l', l'.Perm l ∧ C.climb n a l' = answer := by
  induction h generalizing n with
  | stop hstop =>
    obtain ⟨n, rfl⟩ := Nat.exists_eq_succ_of_ne_zero (by omega : n ≠ 0)
    refine ⟨_, .refl _, ?_⟩
    unfold climb
    rw [hstop]
  | refused hstop hl hnext hb =>
    obtain ⟨n, rfl⟩ := Nat.exists_eq_succ_of_ne_zero (by omega : n ≠ 0)
    refine ⟨_, hl.symm, ?_⟩
    unfold climb
    rw [hstop, List.find?_cons_of_pos hnext]
    dsimp only
    rw [hb]
    rfl
  | next hstop hl hnext hb h ih =>
    obtain ⟨n, rfl⟩ := Nat.exists_eq_succ_of_ne_zero (by omega : n ≠ 0)
    have hlength := hl.length_eq
    rw [List.length_cons] at hlength
    obtain ⟨rest', hrest, hanswer⟩ := ih (n := n) (by omega)
    refine ⟨_ :: rest', (hrest.cons _).trans hl.symm, ?_⟩
    unfold climb
    rw [hstop, List.find?_cons_of_pos hnext, List.eraseP_cons_of_pos hnext]
    dsimp only
    rw [if_pos hb, hanswer]
  | finish hstop hnone =>
    obtain ⟨n, rfl⟩ := Nat.exists_eq_succ_of_ne_zero (by omega : n ≠ 0)
    refine ⟨_, .refl _, ?_⟩
    unfold climb
    rw [hstop, List.find?_eq_none.mpr fun b hb => by rw [hnone b hb]; exact Bool.false_ne_true]

theorem climb_perm_iff {n : Nat} {a : α} {l : List α} (hn : l.length < n) :
    (∀ l', l'.Perm l → C.climb n a l' = C.climb n a l) ↔
      ¬ (C.Climbs a l true ∧ C.Climbs a l false) := by
  constructor
  · rintro hall ⟨htrue, hfalse⟩
    obtain ⟨l', hl', hanswer⟩ := exists_perm_climb htrue hn
    obtain ⟨l'', hl'', hanswer'⟩ := exists_perm_climb hfalse hn
    rw [hall l' hl'] at hanswer
    rw [hall l'' hl'', hanswer] at hanswer'
    cases hanswer'
  · intro hboth l' hl'
    have h := climbs_climb (C := C) (a := a) hn
    have h' := (climbs_climb (C := C) (a := a) (hl'.length_eq ▸ hn)).perm hl'
    cases hanswer : C.climb n a l <;> cases hanswer' : C.climb n a l' <;> rw [hanswer] at h <;> rw [hanswer'] at h'
    · exact absurd ⟨h', h⟩ hboth
    · exact absurd ⟨h, h'⟩ hboth

end Climber

end Monios.Library
