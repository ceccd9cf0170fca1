import Mathlib.Algebra.Order.Ring.Int
import Mathlib.Data.List.Nodup

/-!
# Entry stubs of an x86-64 kernel

The state a hand-written entry routine works on: the general-purpose registers and the stack of the
kernel, as the words from the stack pointer upwards. A call of a compiled function keeps the
registers the calling convention names, and leaves unknown values in the others.
-/

set_option autoImplicit false

namespace Monios.Library

inductive Gpr
  | rax | rbx | rcx | rdx | rsi | rdi | rbp | r8 | r9 | r10 | r11 | r12 | r13 | r14 | r15
  deriving DecidableEq, Repr

def Gpr.callerSaved : Gpr → Bool
  | .rax | .rcx | .rdx | .rsi | .rdi | .r8 | .r9 | .r10 | .r11 => true
  | _ => false

structure UserContext where
  gpr : Gpr → UInt64
  rip : UInt64
  cs : UInt64
  rflags : UInt64
  rsp : UInt64
  ss : UInt64

abbrev Words := Nat → UInt64

structure Stub where
  gpr : Gpr → UInt64
  rsp : UInt64
  stack : Words

namespace Stub

variable (s : Stub)

def set (r : Gpr) (v : UInt64) : Stub := { s with gpr := Function.update s.gpr r v }

def pushValue (v : UInt64) : Stub :=
  { s with rsp := s.rsp - 8, stack := fun i => if i = 0 then v else s.stack (i - 1) }

def push (r : Gpr) : Stub := s.pushValue (s.gpr r)

def drop (n : Nat) : Stub := { s with rsp := s.rsp + 8 * UInt64.ofNat n, stack := fun i => s.stack (i + n) }

def pop (r : Gpr) : Stub := (s.drop 1).set r (s.stack 0)

def setTop (v : UInt64) : Stub := { s with stack := fun i => if i = 0 then v else s.stack i }

def pushAll (l : List Gpr) : Stub := l.foldl push s

def popAll (l : List Gpr) : Stub := l.foldl pop s

def switch (rsp : UInt64) (stack : Words) : Stub := { s with rsp := rsp, stack := stack }

def call (ret : UInt64) (scratch : Gpr → UInt64) : Stub :=
  { s with gpr := fun r => if r = .rax then ret else if r.callerSaved then scratch r else s.gpr r }

def interrupt (u : UserContext) (rsp : UInt64) (stack : Words) : Stub :=
  ((((Stub.mk u.gpr rsp stack).pushValue u.ss).pushValue u.rsp).pushValue u.rflags).pushValue u.cs
    |>.pushValue u.rip

def iretq : UserContext where
  gpr := s.gpr
  rip := s.stack 0
  cs := s.stack 1
  rflags := s.stack 2
  rsp := s.stack 3
  ss := s.stack 4

/-! ## Frames -/

variable {s}

@[simp] theorem gpr_pushAll (l : List Gpr) : (s.pushAll l).gpr = s.gpr := by
  induction l generalizing s with
  | nil => rfl
  | cons r l ih => exact ih

theorem word_pushAll_add (l : List Gpr) (i : Nat) :
    (s.pushAll l).stack (l.length + i) = s.stack i := by
  induction l generalizing s i with
  | nil => simp [pushAll]
  | cons r l ih =>
    have h := ih (s := s.push r) (i + 1)
    rw [show (r :: l).length + i = l.length + (i + 1) by simp; omega]
    exact h

theorem word_pushAll {l : List Gpr} {i : Nat} (hi : i < l.length) :
    (s.pushAll l.reverse).stack i = s.gpr (l.get ⟨i, hi⟩) := by
  induction l generalizing i with
  | nil => simp at hi
  | cons r l ih =>
    have hpush : s.pushAll (r :: l).reverse = (s.pushAll l.reverse).push r := by
      simp [pushAll]
    rw [hpush]
    cases i with
    | zero => simp [push, pushValue]
    | succ i => simpa [push, pushValue] using ih (by simpa using hi)

theorem gpr_popAll_of_notMem {l : List Gpr} {r : Gpr} (h : r ∉ l) :
    (s.popAll l).gpr r = s.gpr r := by
  induction l generalizing s with
  | nil => rfl
  | cons q l ih =>
    simp only [List.mem_cons, not_or] at h
    calc (s.popAll (q :: l)).gpr r = (s.pop q).gpr r := ih h.2
      _ = s.gpr r := Function.update_of_ne h.1 _ _

theorem gpr_popAll {l : List Gpr} (hl : l.Nodup) {i : Nat} (hi : i < l.length) :
    (s.popAll l).gpr (l.get ⟨i, hi⟩) = s.stack i := by
  induction l generalizing s i with
  | nil => simp at hi
  | cons r l ih =>
    rw [List.nodup_cons] at hl
    cases i with
    | zero =>
      calc (s.popAll (r :: l)).gpr r = (s.pop r).gpr r := gpr_popAll_of_notMem hl.1
        _ = s.stack 0 := Function.update_self _ _ _
    | succ i =>
      have h := ih (s := s.pop r) hl.2 (by simpa using hi)
      exact h

theorem stack_popAll (l : List Gpr) (i : Nat) : (s.popAll l).stack i = s.stack (l.length + i) := by
  induction l generalizing s i with
  | nil => simp [popAll]
  | cons r l ih =>
    calc (s.popAll (r :: l)).stack i = (s.pop r).stack (l.length + i) := ih i
      _ = s.stack ((r :: l).length + i) := by
        simp only [pop, drop, set, List.length_cons]
        congr 1
        omega

end Stub

end Monios.Library
