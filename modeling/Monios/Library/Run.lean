import Mathlib.Algebra.Order.Ring.Int
import Mathlib.Data.List.Basic

/-!
# Finite runs of a partial transition function

A system is a partial step function `step : σ → α → Option σ`: `none` says that the action is not
enabled.
-/

set_option autoImplicit false

namespace Monios.Library

variable {σ α : Type*}

/-- `Run step s as t`: taking the actions `as` one after the other leads from `s`
to `t`, every one of them being enabled when its turn comes. -/
inductive Run (step : σ → α → Option σ) : σ → List α → σ → Prop
  | nil (s : σ) : Run step s [] s
  | cons {s s' t : σ} {a : α} {as : List α} (h : step s a = some s') (rest : Run step s' as t) : Run step s (a :: as) t

namespace Run

variable {step : σ → α → Option σ}

/-- The invariant rule: a property that every step from a state satisfying it
keeps holds at the end of every run that starts with it. -/
theorem invariant {I : σ → Prop} (hstep : ∀ s a s', I s → step s a = some s' → I s')
    {s t : σ} {as : List α} (h : Run step s as t) (hs : I s) : I t := by
  induction h with
  | nil => exact hs
  | cons hst _ ih => exact ih (hstep _ _ _ hs hst)

theorem of_foldlM {as : List α} {s t : σ} (h : as.foldlM step s = some t) : Run step s as t := by
  induction as generalizing s with
  | nil =>
    cases h
    exact Run.nil _
  | cons a as ih =>
    rw [List.foldlM_cons] at h
    obtain ⟨u, hu, hrest⟩ := Option.bind_eq_some_iff.mp h
    exact Run.cons hu (ih hrest)

end Run

inductive RunWhile (step : σ → α → Option σ) (C : σ → α → Prop) : σ → List α → σ → Prop
  | nil (s : σ) : RunWhile step C s [] s
  | cons {s s' t : σ} {a : α} {as : List α} (hc : C s a) (h : step s a = some s')
      (rest : RunWhile step C s' as t) : RunWhile step C s (a :: as) t

namespace RunWhile

variable {step : σ → α → Option σ} {C : σ → α → Prop}

theorem invariant {I : σ → Prop} (hstep : ∀ s a s', C s a → I s → step s a = some s' → I s')
    {s t : σ} {as : List α} (h : RunWhile step C s as t) (hs : I s) : I t := by
  induction h with
  | nil => exact hs
  | cons hc hst _ ih => exact ih (hstep _ _ _ hc hs hst)

theorem imp {D : σ → α → Prop} {I : σ → Prop} (hkeep : ∀ s a s', I s → step s a = some s' → I s')
    (himp : ∀ s a s', I s → step s a = some s' → C s a → D s a) {s t : σ} {as : List α}
    (h : RunWhile step C s as t) (hs : I s) : RunWhile step D s as t := by
  induction h with
  | nil => exact RunWhile.nil _
  | cons hc hst _ ih => exact RunWhile.cons (himp _ _ _ hs hst hc) hst (ih (hkeep _ _ _ hs hst))

theorem and {D : σ → α → Prop} {s t : σ} {as : List α} (h : RunWhile step C s as t)
    (h' : RunWhile step D s as t) :
    RunWhile step (fun s a => C s a ∧ D s a) s as t := by
  induction h with
  | nil => exact RunWhile.nil _
  | cons hc hst _ ih =>
    cases h' with
    | cons hd hst' rest' =>
      rw [hst] at hst'
      cases hst'
      exact RunWhile.cons ⟨hc, hd⟩ hst (ih rest')

theorem congr {D : σ → α → Prop} {I : σ → Prop} (hkeep : ∀ s a s', I s → step s a = some s' → I s')
    (hiff : ∀ s a s', I s → step s a = some s' → (C s a ↔ D s a)) {s t : σ} {as : List α}
    (hs : I s) :
    RunWhile step C s as t ↔ RunWhile step D s as t :=
  ⟨fun h => h.imp hkeep (fun s a s' hs hst => (hiff s a s' hs hst).mp) hs,
    fun h => h.imp hkeep (fun s a s' hs hst => (hiff s a s' hs hst).mpr) hs⟩

theorem last {as : List α} {a : α} {s t u : σ} (h : RunWhile step C s (as ++ [a]) t)
    (hu : as.foldlM step s = some u) : C u a := by
  induction as generalizing s with
  | nil =>
    cases h with
    | cons hc _ _ =>
      cases hu
      exact hc
  | cons b as ih =>
    cases h with
    | cons _ hst rest =>
      rw [List.foldlM_cons, hst] at hu
      exact ih rest hu

end RunWhile

end Monios.Library

/-!
# Calls with a known answer, and calls that do not tell related states apart

A call is a state transformer that may fail to return, `StateT σ Option α`. `SimAt R m n s t` says
that `m` from `s` and `n` from `t` either both do not return, or return the same answer in states
related by `R`.
-/

namespace Monios.Library

universe u

variable {σ α β : Type u} {R R' : σ → σ → Prop} {s t : σ}

def SimAt (R : σ → σ → Prop) (m n : StateT σ Option α) (s t : σ) : Prop :=
  match m s, n t with
  | none, none => True
  | some (a, s'), some (b, t') => a = b ∧ R s' t'
  | _, _ => False

namespace SimAt

theorem pure (a : α) (h : R s t) : SimAt R (Pure.pure a) (Pure.pure a) s t := ⟨rfl, h⟩

theorem none : SimAt R (fun _ => Option.none : StateT σ Option α) (fun _ => Option.none) s t :=
  trivial

theorem bind_of {P : α → Prop} {m n : StateT σ Option α} {f g : α → StateT σ Option β}
    (h : SimAt R m n s t) (hm : ∀ a s', m s = some (a, s') → P a)
    (hf : ∀ a s' t', P a → R s' t' → SimAt R' (f a) (g a) s' t') :
    SimAt R' (m >>= f) (n >>= g) s t := by
  have hms : (m >>= f) s = (m s).bind fun p => f p.1 p.2 := rfl
  have hnt : (n >>= g) t = (n t).bind fun p => g p.1 p.2 := rfl
  unfold SimAt at h ⊢
  rw [hms, hnt]
  cases hs : m s with
  | none =>
    cases ht : n t with
    | none => trivial
    | some q => simp [hs, ht] at h
  | some p =>
    cases ht : n t with
    | none => simp [hs, ht] at h
    | some q =>
      simp only [hs, ht] at h
      obtain ⟨hab, hr⟩ := h
      simp only [Option.bind_some, ← hab]
      exact hf p.1 p.2 q.2 (hm p.1 p.2 hs) hr

theorem bind {m n : StateT σ Option α} {f g : α → StateT σ Option β} (h : SimAt R m n s t)
    (hf : ∀ a s' t', R s' t' → SimAt R' (f a) (g a) s' t') : SimAt R' (m >>= f) (n >>= g) s t :=
  bind_of (P := fun _ => True) h (fun _ _ _ => trivial) fun a s' t' _ => hf a s' t'

theorem get_bind {f g : σ → StateT σ Option β} (h : SimAt R (f s) (g t) s t) :
    SimAt R (get >>= f) (get >>= g) s t := h

theorem ite {c d : Prop} [Decidable c] [Decidable d] (hcd : c ↔ d) {m m' n n' : StateT σ Option α}
    (hpos : d → SimAt R m m' s t) (hneg : ¬ d → SimAt R n n' s t) :
    SimAt R (if c then m else n) (if d then m' else n') s t := by
  by_cases hd : d
  · rw [if_pos hd, if_pos (hcd.mpr hd)]
    exact hpos hd
  · rw [if_neg hd, if_neg (mt hcd.mp hd)]
    exact hneg hd

theorem map_fst {m n : StateT σ Option α} (h : SimAt R m n s t) :
    (m s).map Prod.fst = (n t).map Prod.fst := by
  unfold SimAt at h
  cases hs : m s <;> cases ht : n t <;> simp_all

end SimAt

section

variable {I J : σ → Prop}

def YieldsAt (I : σ → Prop) (m : StateT σ Option α) (s : σ) (r : Option α) : Prop :=
  ∀ a, r = some a → ∃ s', m s = some (a, s') ∧ I s'

namespace YieldsAt

theorem pure {a : α} (h : I s) : YieldsAt I (Pure.pure a) s (some a) := by
  rintro b ⟨⟩
  exact ⟨s, rfl, h⟩

theorem none {m : StateT σ Option α} : YieldsAt I m s Option.none := by
  rintro a ⟨⟩

theorem bind {m : StateT σ Option α} {r : Option α} {f : α → StateT σ Option β} {g : α → Option β}
    (h : YieldsAt I m s r) (hf : ∀ a s', r = some a → I s' → YieldsAt J (f a) s' (g a)) :
    YieldsAt J (m >>= f) s (r >>= g) := by
  intro b hb
  obtain ⟨a, ha, hb⟩ := Option.bind_eq_some_iff.mp hb
  obtain ⟨s', hm, hI⟩ := h a ha
  obtain ⟨s'', hrun, hJ⟩ := hf a s' ha hI b hb
  refine ⟨s'', ?_, hJ⟩
  show (m s).bind (fun p => f p.1 p.2) = _
  rw [hm]
  exact hrun

theorem get_bind {f : σ → StateT σ Option β} {r : Option β} (h : YieldsAt I (f s) s r) :
    YieldsAt I (get >>= f) s r := h

theorem ite {c : Prop} [Decidable c] {m n : StateT σ Option α} {r q : Option α}
    (hpos : c → YieldsAt I m s r) (hneg : ¬ c → YieldsAt I n s q) :
    YieldsAt I (if c then m else n) s (if c then r else q) := by
  split
  · next hc => exact hpos hc
  · next hc => exact hneg hc

theorem mono {m : StateT σ Option α} {r : Option α} (h : YieldsAt I m s r) (hIJ : ∀ s, I s → J s) :
    YieldsAt J m s r := by
  intro a ha
  obtain ⟨s', hm, hI⟩ := h a ha
  exact ⟨s', hm, hIJ s' hI⟩

end YieldsAt

end

end Monios.Library
