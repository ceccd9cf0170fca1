import Mathlib.Algebra.Order.Ring.Int

/-!
# What a call leaves behind

A call is a state transformer that may fail to return, `StateT σ Option α`. `Ensures m s Q` says
that whatever `m` returns from `s`, in whatever state, satisfies `Q`; `Returns m s Q` says that `m`
does return.
-/

set_option autoImplicit false

namespace Monios.Library

universe u

variable {σ α β : Type u} {s : σ}

def Ensures (m : StateT σ Option α) (s : σ) (Q : α → σ → Prop) : Prop :=
  ∀ a s', m s = some (a, s') → Q a s'

namespace Ensures

variable {Q Q' : α → σ → Prop} {m : StateT σ Option α}

theorem pure {a : α} (h : Q a s) : Ensures (Pure.pure a) s Q := by
  rintro _ _ ⟨⟩
  exact h

theorem none : Ensures (fun _ => Option.none : StateT σ Option α) s Q := by
  rintro _ _ ⟨⟩

theorem of_run {a : α} {s' : σ} (hrun : m s = some (a, s')) (h : Q a s') : Ensures m s Q := by
  intro b t hb
  rw [hrun] at hb
  cases hb
  exact h

theorem mono (h : Ensures m s Q) (hQ : ∀ a s', Q a s' → Q' a s') : Ensures m s Q' :=
  fun a s' hrun => hQ a s' (h a s' hrun)

theorem and (h : Ensures m s Q) (h' : Ensures m s Q') : Ensures m s fun a s' => Q a s' ∧ Q' a s' :=
  fun a s' hrun => ⟨h a s' hrun, h' a s' hrun⟩

theorem bind {P : α → σ → Prop} {R : β → σ → Prop} {f : α → StateT σ Option β} (h : Ensures m s P)
    (hf : ∀ a s', P a s' → Ensures (f a) s' R) : Ensures (m >>= f) s R := by
  intro b t hrun
  obtain ⟨⟨a, s'⟩, hm, hrest⟩ := Option.bind_eq_some_iff.mp hrun
  exact hf a s' (h a s' hm) b t hrest

theorem run_bind {R : β → σ → Prop} {f : α → StateT σ Option β} {a : α} {s' : σ}
    (hrun : m s = some (a, s')) (h : Ensures (f a) s' R) : Ensures (m >>= f) s R := by
  intro b t hb
  obtain ⟨⟨a', s''⟩, hm, hrest⟩ := Option.bind_eq_some_iff.mp hb
  rw [hrun] at hm
  cases hm
  exact h b t hrest

theorem get_bind {R : β → σ → Prop} {f : σ → StateT σ Option β} (h : Ensures (f s) s R) :
    Ensures (get >>= f) s R := h

theorem ite {c : Prop} [Decidable c] {n : StateT σ Option α} (hpos : c → Ensures m s Q)
    (hneg : ¬ c → Ensures n s Q) :
    Ensures (if c then m else n) s Q := by
  by_cases hc : c
  · rw [if_pos hc]
    exact hpos hc
  · rw [if_neg hc]
    exact hneg hc

theorem forM {ι : Type u} {I : σ → Prop} {f : ι → StateT σ Option PUnit} (l : List ι)
    (hf : ∀ x ∈ l, ∀ s, I s → Ensures (f x) s fun _ => I) (h : I s) :
    Ensures (l.forM f) s fun _ => I := by
  induction l generalizing s with
  | nil => exact pure h
  | cons x l ih =>
    change Ensures (f x >>= fun _ => l.forM f) s _
    exact bind (hf x List.mem_cons_self s h) fun _ s' h' => ih
      (fun y hy => hf y (List.mem_cons_of_mem _ hy)) h'

end Ensures

def Returns (m : StateT σ Option α) (s : σ) (Q : α → σ → Prop) : Prop :=
  ∃ a s', m s = some (a, s') ∧ Q a s'

namespace Returns

variable {Q Q' : α → σ → Prop} {m : StateT σ Option α}

theorem pure {a : α} (h : Q a s) : Returns (Pure.pure a) s Q := ⟨a, s, rfl, h⟩

theorem mono (h : Returns m s Q) (hQ : ∀ a s', Q a s' → Q' a s') : Returns m s Q' := by
  obtain ⟨a, s', hrun, ha⟩ := h
  exact ⟨a, s', hrun, hQ a s' ha⟩

theorem bind {P : α → σ → Prop} {R : β → σ → Prop} {f : α → StateT σ Option β} (h : Returns m s P)
    (hf : ∀ a s', P a s' → Returns (f a) s' R) : Returns (m >>= f) s R := by
  obtain ⟨a, s', hrun, ha⟩ := h
  obtain ⟨b, t, hrun', hb⟩ := hf a s' ha
  exact ⟨b, t, Option.bind_eq_some_iff.mpr ⟨(a, s'), hrun, hrun'⟩, hb⟩

theorem run_bind {R : β → σ → Prop} {f : α → StateT σ Option β} {a : α} {s' : σ}
    (hrun : m s = some (a, s')) (h : Returns (f a) s' R) : Returns (m >>= f) s R := by
  obtain ⟨b, t, hrun', hb⟩ := h
  exact ⟨b, t, Option.bind_eq_some_iff.mpr ⟨(a, s'), hrun, hrun'⟩, hb⟩

theorem get_bind {R : β → σ → Prop} {f : σ → StateT σ Option β} (h : Returns (f s) s R) :
    Returns (get >>= f) s R := h

theorem ite {c : Prop} [Decidable c] {n : StateT σ Option α} (hpos : c → Returns m s Q)
    (hneg : ¬ c → Returns n s Q) :
    Returns (if c then m else n) s Q := by
  by_cases hc : c
  · rw [if_pos hc]
    exact hpos hc
  · rw [if_neg hc]
    exact hneg hc

end Returns

end Monios.Library
