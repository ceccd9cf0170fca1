import Mathlib.Algebra.Order.Ring.Int
import Mathlib.Data.List.Basic

/-!
# Cipher block chaining

Blocks are put through a map one after the other, each combined with the block that was made before
it. `chain` makes the blocks and `unchain` takes them apart again.
-/

set_option autoImplicit false

namespace Monios.Library

variable {X : Type}

def chain (encrypt : X → X) (combine : X → X → X) : X → List X → List X
  | _, [] => []
  | last, block :: blocks =>
    encrypt (combine block last) :: chain encrypt combine (encrypt (combine block last)) blocks

def unchain (decrypt : X → X) (combine : X → X → X) : X → List X → List X
  | _, [] => []
  | last, block :: blocks => combine (decrypt block) last :: unchain decrypt combine block blocks

def unchainOver (decrypt : X → X) (combine : X → X → X) : X → List X → List X
  | _, [] => []
  | last, block :: blocks =>
    combine (decrypt block) last :: unchainOver decrypt combine (combine (decrypt block) last) blocks

section

variable {encrypt decrypt : X → X} {combine : X → X → X}

theorem unchain_chain (hdecrypt : ∀ x, decrypt (encrypt x) = x)
    (hcombine : ∀ x y, combine (combine x y) y = x) (last : X) (blocks : List X) :
    unchain decrypt combine last (chain encrypt combine last blocks) = blocks := by
  induction blocks generalizing last with
  | nil => rfl
  | cons block blocks ih =>
    rw [chain, unchain, hdecrypt, hcombine, ih]

theorem unchain_take (last : X) (blocks : List X) (n : Nat) :
    (unchain decrypt combine last blocks).take n =
      unchain decrypt combine last (blocks.take n) := by
  induction blocks generalizing last n with
  | nil => simp [unchain]
  | cons block blocks ih =>
    cases n with
    | zero => rfl
    | succ n => rw [unchain, List.take_succ_cons, List.take_succ_cons, unchain, ih]

def linked (last : X) (blocks : List X) : List (X × X) := blocks.zip (last :: blocks)

theorem linked_cons (last block : X) (blocks : List X) :
    linked last (block :: blocks) = (block, last) :: linked block blocks := rfl

/-- Blocks that are written over are taken apart rightly if and only if every block but the last,
combined with the one before it, is encrypted to itself. -/
theorem unchainOver_chain_eq_iff (hdecrypt : ∀ x, decrypt (encrypt x) = x)
    (hcombine : ∀ x y, combine (combine x y) y = x)
    (hcancel : ∀ x y z, combine x y = combine x z → y = z) (last : X) (blocks : List X) :
    unchainOver decrypt combine last (chain encrypt combine last blocks) = blocks ↔
      ∀ pair ∈ linked last blocks.dropLast, encrypt (combine pair.1 pair.2) = pair.1 := by
  induction blocks generalizing last with
  | nil => simp [chain, unchainOver, linked]
  | cons block blocks ih =>
    rw [chain, unchainOver, hdecrypt, hcombine, List.cons.injEq]
    cases blocks with
    | nil => simp [chain, unchainOver, linked]
    | cons next rest =>
      rw [List.dropLast_cons_cons, linked_cons]
      simp only [List.forall_mem_cons, true_and]
      constructor
      · intro h
        -- the next block comes out right only where the wrong block it is combined with is the
        -- right one
        have hhead : encrypt (combine block last) = block := by
          rw [chain, unchainOver, hdecrypt, List.cons.injEq] at h
          have hnext := h.1
          apply hcancel (combine next (encrypt (combine block last)))
          rw [hcombine, hnext]
        rw [hhead] at h
        exact ⟨hhead, (ih block).mp h⟩
      · rintro ⟨hhead, hrest⟩
        rw [hhead]
        exact (ih block).mpr hrest

end

end Monios.Library
