import Mathlib.Algebra.Order.Ring.Int
import Mathlib.Data.List.Basic

/-!
# Computations that log events

`Traced σ ε α` are the computations on states `σ` that return an `α` and log events `ε` on the way.
The log of a bind is the log of the first computation followed by that of the second.
-/

set_option autoImplicit false

namespace Monios.Library

def Traced (σ ε α : Type) : Type := σ → α × σ × List ε

namespace Traced

variable {σ ε α β : Type}

def result (m : Traced σ ε α) (s : σ) : α := (m s).1

def state (m : Traced σ ε α) (s : σ) : σ := (m s).2.1

def log (m : Traced σ ε α) (s : σ) : List ε := (m s).2.2

instance : Monad (Traced σ ε) where
  pure a := fun s => (a, s, [])
  bind m f := fun s => ((f (m.result s)).result (m.state s), (f (m.result s)).state (m.state s),
    m.log s ++ (f (m.result s)).log (m.state s))

def reads (g : σ → α) : Traced σ ε α := fun s => (g s, s, [])

def modifies (g : σ → σ) : Traced σ ε Unit := fun s => ((), g s, [])

def emit (e : ε) : Traced σ ε Unit := fun s => ((), s, [e])

section

variable (s : σ)

@[simp] theorem result_pure (a : α) : (pure a : Traced σ ε α).result s = a := rfl

@[simp] theorem state_pure (a : α) : (pure a : Traced σ ε α).state s = s := rfl

@[simp] theorem log_pure (a : α) : (pure a : Traced σ ε α).log s = [] := rfl

/-- The result of two steps is that of the second, run where the first one ends. -/
@[simp] theorem result_bind (m : Traced σ ε α) (f : α → Traced σ ε β) :
    (m >>= f).result s = (f (m.result s)).result (m.state s) := rfl

/-- The state after two steps. -/
@[simp] theorem state_bind (m : Traced σ ε α) (f : α → Traced σ ε β) :
    (m >>= f).state s = (f (m.result s)).state (m.state s) := rfl

/-- The log of two steps is the one behind the other. -/
@[simp] theorem log_bind (m : Traced σ ε α) (f : α → Traced σ ε β) :
    (m >>= f).log s = m.log s ++ (f (m.result s)).log (m.state s) := rfl

@[simp] theorem result_reads (g : σ → α) : (reads g : Traced σ ε α).result s = g s := rfl

@[simp] theorem state_reads (g : σ → α) : (reads g : Traced σ ε α).state s = s := rfl

@[simp] theorem log_reads (g : σ → α) : (reads g : Traced σ ε α).log s = [] := rfl

@[simp] theorem state_modifies (g : σ → σ) : (modifies g : Traced σ ε Unit).state s = g s := rfl

@[simp] theorem log_modifies (g : σ → σ) : (modifies g : Traced σ ε Unit).log s = [] := rfl

@[simp] theorem state_emit (e : ε) : (emit e : Traced σ ε Unit).state s = s := rfl

@[simp] theorem log_emit (e : ε) : (emit e : Traced σ ε Unit).log s = [e] := rfl

theorem result_of_eq {m : Traced σ ε α} {s t : σ} {a : α} {l : List ε} (h : m s = (a, t, l)) :
    m.result s = a :=
  congrArg Prod.fst h

theorem state_of_eq {m : Traced σ ε α} {s t : σ} {a : α} {l : List ε} (h : m s = (a, t, l)) :
    m.state s = t :=
  congrArg (fun r => r.2.1) h

theorem log_of_eq {m : Traced σ ε α} {s t : σ} {a : α} {l : List ε} (h : m s = (a, t, l)) :
    m.log s = l :=
  congrArg (fun r => r.2.2) h

theorem reads_bind (g : σ → α) (f : α → Traced σ ε β) : (reads g >>= f) s = f (g s) s := rfl

/-- A first step whose result is known. -/
theorem bind_of_eq {m : Traced σ ε α} {f : α → Traced σ ε β} {a : α} {t : σ} {l : List ε}
    (h : m s = (a, t, l)) :
    (m >>= f) s = ((f a t).1, (f a t).2.1, l ++ (f a t).2.2) := by
  change ((f (m s).1 (m s).2.1).1, (f (m s).1 (m s).2.1).2.1, (m s).2.2 ++ (f (m s).1 (m s).2.1).2.2) = _
  rw [h]

end

/-! ## All events of a computation -/

def Emits (I : σ → Prop) (P : ε → Prop) (m : Traced σ ε α) : Prop :=
  ∀ s, I s → I (m.state s) ∧ ∀ e ∈ m.log s, P e

namespace Emits

variable {I : σ → Prop} {P Q : ε → Prop}

theorem pure (a : α) : Emits I P (Pure.pure a : Traced σ ε α) :=
  fun _ hs => ⟨hs, fun _ he => absurd he List.not_mem_nil⟩

theorem bind {m : Traced σ ε α} {f : α → Traced σ ε β} (hm : Emits I P m)
    (hf : ∀ a, Emits I P (f a)) :
    Emits I P (m >>= f) := by
  intro s hs
  obtain ⟨hstate, hlog⟩ := hm s hs
  obtain ⟨hstate', hlog'⟩ := hf (m.result s) (m.state s) hstate
  refine ⟨hstate', ?_⟩
  intro e he
  rw [log_bind] at he
  rcases List.mem_append.mp he with he | he
  · exact hlog e he
  · exact hlog' e he

theorem reads_bind {g : σ → α} {f : α → Traced σ ε β} (hf : ∀ s, I s → Emits I P (f (g s))) :
    Emits I P (reads g >>= f) := by
  intro s hs
  obtain ⟨hstate, hlog⟩ := hf s hs s hs
  exact ⟨hstate, hlog⟩

theorem reads (g : σ → α) : Emits I P (Traced.reads g : Traced σ ε α) :=
  fun _ hs => ⟨hs, fun _ he => absurd he List.not_mem_nil⟩

theorem modifies {g : σ → σ} (hg : ∀ s, I s → I (g s)) :
    Emits I P (Traced.modifies g : Traced σ ε Unit) :=
  fun s hs => ⟨hg s hs, fun _ he => absurd he List.not_mem_nil⟩

theorem emit {e : ε} (he : P e) : Emits I P (Traced.emit e : Traced σ ε Unit) := by
  refine fun s hs => ⟨hs, ?_⟩
  intro e' he'
  rw [log_emit, List.mem_singleton] at he'
  rwa [he']

theorem ite {c : Prop} [Decidable c] {m m' : Traced σ ε α} (hm : c → Emits I P m)
    (hm' : ¬ c → Emits I P m') :
    Emits I P (if c then m else m') := by
  split
  · next hc => exact hm hc
  · next hc => exact hm' hc

end Emits

/-! ## Computations that change nothing -/

def Answers (P : ε → Prop) (a : α) (m : Traced σ ε α) : Prop :=
  ∀ s, ∃ l, m s = (a, s, l) ∧ ∀ e ∈ l, P e

namespace Answers

variable {P : ε → Prop}

theorem pure (a : α) : Answers P a (Pure.pure a : Traced σ ε α) :=
  fun _ => ⟨[], rfl, fun _ he => absurd he List.not_mem_nil⟩

theorem bind {m : Traced σ ε α} {f : α → Traced σ ε β} {a : α} {b : β} (hm : Answers P a m)
    (hf : Answers P b (f a)) :
    Answers P b (m >>= f) := by
  intro s
  obtain ⟨l, hl, hP⟩ := hm s
  obtain ⟨l', hl', hP'⟩ := hf s
  refine ⟨l ++ l', ?_, List.forall_mem_append.mpr ⟨hP, hP'⟩⟩
  rw [bind_of_eq s hl, hl']

theorem emit_bind {e : ε} {f : Unit → Traced σ ε β} {b : β} (he : P e) (hf : Answers P b (f ())) :
    Answers P b (emit e >>= f) := by
  have hemit : Answers P () (emit e : Traced σ ε Unit) := fun s => ⟨[e], rfl, by simpa using he⟩
  exact hemit.bind hf

theorem ite {c : Prop} [Decidable c] {m m' : Traced σ ε α} {a a' : α} (hm : c → Answers P a m)
    (hm' : ¬ c → Answers P a' m') :
    Answers P (if c then a else a') (if c then m else m') := by
  by_cases hc : c
  · rw [if_pos hc, if_pos hc]
    exact hm hc
  · rw [if_neg hc, if_neg hc]
    exact hm' hc

end Answers

/-! ## From one state -/

def Ends (R : σ → List ε → σ → Prop) (Q : α → σ → Prop) (m : Traced σ ε α) (s : σ) : Prop :=
  R s (m.log s) (m.state s) ∧ Q (m.result s) (m.state s)

namespace Ends

variable {R : σ → List ε → σ → Prop} {Q : α → σ → Prop} {Q' : β → σ → Prop} {s : σ}

theorem of_eq {m : Traced σ ε α} {a : α} {t : σ} {l : List ε} (h : m s = (a, t, l)) (hr : R s l t)
    (hq : Q a t) :
    Ends R Q m s := by
  unfold Ends result state log
  rw [h]
  exact ⟨hr, hq⟩

theorem pure {a : α} (hr : R s [] s) (h : Q a s) : Ends R Q (Pure.pure a : Traced σ ε α) s :=
  ⟨hr, h⟩

theorem bind (hR : ∀ {s l t l' u}, R s l t → R t l' u → R s (l ++ l') u) {m : Traced σ ε α}
    {f : α → Traced σ ε β} (hm : Ends R Q m s) (hf : ∀ a t, Q a t → Ends R Q' (f a) t) :
    Ends R Q' (m >>= f) s := by
  obtain ⟨hr, hq⟩ := hm
  obtain ⟨hr', hq'⟩ := hf _ _ hq
  exact ⟨hR hr hr', hq'⟩

theorem reads_bind {g : σ → α} {f : α → Traced σ ε β} (h : Ends R Q' (f (g s)) s) :
    Ends R Q' (reads g >>= f) s := h

theorem bind_same {m : Traced σ ε α} {f : α → Traced σ ε β} {a : α} (h : m s = (a, s, []))
    (hf : Ends R Q' (f a) s) :
    Ends R Q' (m >>= f) s := by
  unfold Ends
  rw [log_bind, state_bind, result_bind, result_of_eq h, state_of_eq h, log_of_eq h]
  exact hf

theorem modifies_bind (hR : ∀ {s l t l' u}, R s l t → R t l' u → R s (l ++ l') u) {g : σ → σ}
    {f : Unit → Traced σ ε β} (hg : R s [] (g s)) (hf : Ends R Q' (f ()) (g s)) :
    Ends R Q' (modifies g >>= f) s := by
  obtain ⟨hr, hq⟩ := hf
  exact ⟨hR hg hr, hq⟩

theorem ite {c : Prop} [Decidable c] {m m' : Traced σ ε α} (hm : c → Ends R Q m s)
    (hm' : ¬ c → Ends R Q m' s) :
    Ends R Q (if c then m else m') s := by
  split
  · next hc => exact hm hc
  · next hc => exact hm' hc

theorem mono {P : α → σ → Prop} {m : Traced σ ε α} (h : Ends R Q m s) (hQ : ∀ a t, Q a t → P a t) :
    Ends R P m s :=
  ⟨h.1, hQ _ _ h.2⟩

theorem any {m : Traced σ ε α} (h : Ends R Q m s) : Ends (fun _ _ _ => True) Q m s := ⟨trivial, h.2⟩

theorem and {P : α → σ → Prop} {m : Traced σ ε α} (h : Ends R Q m s)
    (hP : P (m.result s) (m.state s)) :
    Ends R (fun a t => Q a t ∧ P a t) m s := ⟨h.1, h.2, hP⟩

end Ends

end Traced

end Monios.Library
