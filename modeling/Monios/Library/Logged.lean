import Mathlib.Algebra.Order.Ring.Int
import Mathlib.Data.List.Basic

/-!
# Computations that log events and may fail

`Logged ε α` is a computation that may return an `α`, and logs events `ε` on the way. A failure
keeps the events before it.
-/

set_option autoImplicit false

namespace Monios.Library

def Logged (ε α : Type) : Type := Option α × List ε

namespace Logged

variable {ε α β : Type}

def result (m : Logged ε α) : Option α := m.1

def log (m : Logged ε α) : List ε := m.2

instance : Monad (Logged ε) where
  pure a := (some a, [])
  bind m f :=
    match m.result with
    | none => (none, m.log)
    | some a => ((f a).result, m.log ++ (f a).log)

def emit (e : ε) : Logged ε Unit := (some (), [e])

def fail : Logged ε α := (none, [])

def require (c : Prop) [Decidable c] : Logged ε Unit := if c then pure () else fail

def attempt (m : Logged ε α) : Logged ε (Option α) := (some m.result, m.log)

theorem result_pure (a : α) : (pure a : Logged ε α).result = some a := rfl

theorem bind_of_none {m : Logged ε α} {f : α → Logged ε β} (h : m.result = none) :
    m >>= f = (none, m.log) := by
  change (match m.result with
    | none => (none, m.log)
    | some a => ((f a).result, m.log ++ (f a).log)) = _
  rw [h]

theorem bind_of_some {m : Logged ε α} {f : α → Logged ε β} {a : α} (h : m.result = some a) :
    m >>= f = ((f a).result, m.log ++ (f a).log) := by
  change (match m.result with
    | none => (none, m.log)
    | some a => ((f a).result, m.log ++ (f a).log)) = _
  rw [h]

theorem result_bind {m : Logged ε α} {f : α → Logged ε β} {a : α} (h : m.result = some a) :
    (m >>= f).result = (f a).result := by
  rw [bind_of_some h]
  rfl

theorem result_bind_eq (m : Logged ε α) (f : α → Logged ε β) :
    (m >>= f).result = m.result.bind fun a => (f a).result := by
  cases hr : m.result with
  | none =>
    rw [bind_of_none hr]
    rfl
  | some a => exact result_bind hr

theorem result_emit_bind (e : ε) (f : Unit → Logged ε β) : (emit e >>= f).result = (f ()).result :=
  rfl

theorem result_require_bind (c : Prop) [Decidable c] (f : Unit → Logged ε β) :
    (require c >>= f).result = if c then (f ()).result else none := by
  unfold require
  by_cases hc : c
  · rw [if_pos hc, if_pos hc]
    rfl
  · rw [if_neg hc, if_neg hc]
    rfl

def Keeps (P : ε → Prop) (m : Logged ε α) (Q : α → Prop) : Prop :=
  (∀ e ∈ m.log, P e) ∧ ∀ a, m.result = some a → Q a

namespace Keeps

variable {P : ε → Prop} {Q Q' : α → Prop} {R : β → Prop}

theorem pure {a : α} (h : Q a) : Keeps P (Pure.pure a) Q := by
  refine ⟨fun _ he => absurd he List.not_mem_nil, ?_⟩
  rintro _ ⟨⟩
  exact h

theorem fail : Keeps P (fail : Logged ε α) Q := by
  refine ⟨fun _ he => absurd he List.not_mem_nil, ?_⟩
  rintro _ ⟨⟩

theorem mono {m : Logged ε α} (h : Keeps P m Q) (hQ : ∀ a, Q a → Q' a) : Keeps P m Q' :=
  ⟨h.1, fun a ha => hQ a (h.2 a ha)⟩

theorem bind {m : Logged ε α} {f : α → Logged ε β} (hm : Keeps P m Q)
    (hf : ∀ a, Q a → Keeps P (f a) R) :
    Keeps P (m >>= f) R := by
  cases hr : m.result with
  | none =>
    rw [bind_of_none hr]
    refine ⟨hm.1, ?_⟩
    rintro _ ⟨⟩
  | some a =>
    rw [bind_of_some hr]
    have ha := hf a (hm.2 a hr)
    exact ⟨fun e he => (List.mem_append.mp he).elim (hm.1 e) (ha.1 e), ha.2⟩

theorem emit_bind {e : ε} {f : Unit → Logged ε β} (he : P e) (hf : Keeps P (f ()) R) :
    Keeps P (emit e >>= f) R := by
  refine bind (Q := fun _ => True) ⟨fun x hx => ?_, fun _ _ => trivial⟩ fun _ _ => hf
  obtain rfl := List.mem_singleton.mp hx
  exact he

theorem require_bind {c : Prop} [Decidable c] {f : Unit → Logged ε β} (hf : c → Keeps P (f ()) R) :
    Keeps P (require c >>= f) R := by
  unfold require
  by_cases hc : c
  · rw [if_pos hc]
    exact bind (Q := fun _ => c) (pure hc) fun _ _ => hf hc
  · rw [if_neg hc]
    exact bind (Q := fun _ => False) fail fun _ h => h.elim

theorem attempt_bind {m : Logged ε α} {f : Option α → Logged ε β} (hm : Keeps P m Q)
    (hf : ∀ r, (∀ a, r = some a → Q a) → Keeps P (f r) R) : Keeps P (attempt m >>= f) R := by
  refine bind (Q := fun r => ∀ a, r = some a → Q a) ⟨hm.1, ?_⟩ hf
  rintro _ ⟨⟩
  exact hm.2

theorem ite {c : Prop} [Decidable c] {m n : Logged ε α} (hpos : c → Keeps P m Q)
    (hneg : ¬ c → Keeps P n Q) :
    Keeps P (if c then m else n) Q := by
  by_cases hc : c
  · rw [if_pos hc]
    exact hpos hc
  · rw [if_neg hc]
    exact hneg hc

end Keeps

def Returns (P : ε → Prop) (m : Logged ε α) (Q : α → Prop) : Prop :=
  (∀ e ∈ m.log, P e) ∧ ∃ a, m.result = some a ∧ Q a

namespace Returns

variable {P : ε → Prop} {Q Q' : α → Prop} {R : β → Prop}

theorem pure {a : α} (h : Q a) : Returns P (Pure.pure a) Q :=
  ⟨fun _ he => absurd he List.not_mem_nil, a, rfl, h⟩

theorem mono {m : Logged ε α} (h : Returns P m Q) (hQ : ∀ a, Q a → Q' a) : Returns P m Q' :=
  ⟨h.1, h.2.imp fun a ha => ⟨ha.1, hQ a ha.2⟩⟩

theorem bind {m : Logged ε α} {f : α → Logged ε β} (hm : Returns P m Q)
    (hf : ∀ a, Q a → Returns P (f a) R) :
    Returns P (m >>= f) R := by
  obtain ⟨hlog, a, ha, hq⟩ := hm
  rw [bind_of_some ha]
  exact ⟨fun e he => (List.mem_append.mp he).elim (hlog e) ((hf a hq).1 e), (hf a hq).2⟩

theorem emit_bind {e : ε} {f : Unit → Logged ε β} (he : P e) (hf : Returns P (f ()) R) :
    Returns P (emit e >>= f) R := by
  refine bind (Q := fun _ => True) ⟨fun x hx => ?_, (), rfl, trivial⟩ fun _ _ => hf
  obtain rfl := List.mem_singleton.mp hx
  exact he

theorem ite {c : Prop} [Decidable c] {m n : Logged ε α} (hpos : c → Returns P m Q)
    (hneg : ¬ c → Returns P n Q) :
    Returns P (if c then m else n) Q := by
  by_cases hc : c
  · rw [if_pos hc]
    exact hpos hc
  · rw [if_neg hc]
    exact hneg hc

end Returns

end Logged

end Monios.Library
