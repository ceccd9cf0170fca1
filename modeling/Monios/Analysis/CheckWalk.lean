import Monios.Analysis.FatAccess
import Monios.Model.Fat32.Chkdsk

/-!
# The walk of the volume check

`fat32_chk_walk_dir` marks the chains of all entries it finds, seventeen directories deep.
`CheckedEntries` says of a directory tree that there is nothing to complain about, and collects the
clusters that get a mark.
-/

set_option autoImplicit false

namespace Monios.Analysis

open Monios.Library Monios.Model

variable {fuel : Nat} {c : Nat} {k : Nat}

structure Walked (s t t' : Fat32) (l : List Nat) : Prop where
  onVolume : OnVolume s t'
  mark_other : ∀ c, c ∉ l → t'.chkMark c = t.chkMark c
  mark : ∀ c ∈ l, t'.chkMark c ≠ 0
  ref_other : ∀ c, c ∉ l → t'.chkRef c = t.chkRef c
  ref : ∀ c ∈ l, t'.chkRef c = (t.chkRef c + 1) % 256

structure Fresh (t : Fat32) (l : List Nat) : Prop where
  mark : ∀ c ∈ l, t.chkMark c ≠ 2
  bound : ∀ c ∈ l, c < fat32ChkMaxClusters

section

variable {s t u v : Fat32} {l m : List Nat}

theorem Walked.refl (h : OnVolume s t) : Walked s t t [] where
  onVolume := h
  mark_other _ _ := rfl
  mark := by simp
  ref_other _ _ := rfl
  ref := by simp

theorem Walked.trans (h : Walked s t u l) (h' : Walked s u v m) (hdisj : l.Disjoint m) :
    Walked s t v (l ++ m) where
  onVolume := h'.onVolume
  mark_other c hc := by
    rw [List.mem_append, not_or] at hc
    rw [h'.mark_other c hc.2, h.mark_other c hc.1]
  mark c hc := by
    by_cases hm : c ∈ m
    · exact h'.mark c hm
    · rw [h'.mark_other c hm]
      exact h.mark c ((List.mem_append.mp hc).resolve_right hm)
  ref_other c hc := by
    rw [List.mem_append, not_or] at hc
    rw [h'.ref_other c hc.2, h.ref_other c hc.1]
  ref c hc := by
    rcases List.mem_append.mp hc with hl | hm
    · rw [h'.ref_other c (fun hm => hdisj hl hm), h.ref c hl]
    · rw [h'.ref c hm, h.ref_other c (fun hl => hdisj hl hm)]

theorem Fresh.left (h : Fresh t (l ++ m)) : Fresh t l :=
  ⟨fun c hc => h.mark c (List.mem_append_left _ hc), fun c hc => h.bound c (List.mem_append_left _ hc)⟩

theorem Fresh.right (h : Fresh t (l ++ m)) : Fresh t m :=
  ⟨fun c hc => h.mark c (List.mem_append_right _ hc), fun c hc => h.bound c (List.mem_append_right _ hc)⟩

end

end Monios.Analysis
