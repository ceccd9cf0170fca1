import Mathlib.Algebra.BigOperators.Group.Finset.Piecewise
import Mathlib.Algebra.Order.BigOperators.Group.Finset
import Monios.Analysis.ProcessSlots
import Monios.Model.Pipe

/-!
# References to pipes

How many descriptors name an end of a pipe, compared with what the pipe counts. `pcb_fd_copy` gives
a child the descriptors of its parent without telling the pipes, and a process that ends, or whose
entry is wiped, takes its descriptors with it.
-/

set_option autoImplicit false

namespace Monios.Analysis

open Monios.Library Monios.Library.Bitmap Monios.Model.ProcTable
open Monios.Model (Pcb PcbState pcbFdInit waitpidReapable)
open Monios.Model.Pipe (State PipeEntry pipeHandleBase pipeDecodeHandle pcbFdAlloc pcbFdFree pcbFdGetHandle pcbFdSet
  pipeFreeIfIdle pipeCreate pipeCloseFd)

variable {p : Pcb} {i : Fin 64} {l : List Int} {slot : Fin 16} {write : Bool} {pipe : PipeEntry}

def pipeHandle (slot : Fin 16) (write : Bool) : Int :=
  pipeHandleBase + slot * 2 + if write then 1 else 0

/-- A handle that decodes is that of the slot and end. -/
theorem pipeDecodeHandle_some {handle : Int}
    (h : pipeDecodeHandle handle = some (slot, write)) : handle = pipeHandle slot write := by
  unfold pipeDecodeHandle at h
  split at h
  · cases h
  · next hbase =>
    dsimp only at h
    split at h
    · simp only [Option.some.injEq, Prod.mk.injEq] at h
      obtain ⟨rfl, rfl⟩ := h
      unfold pipeHandle
      unfold pipeHandleBase at *
      simp only [decide_eq_true_eq]
      split
      · omega
      · omega
    · cases h

theorem pipeHandle_ge (slot : Fin 16) (write : Bool) : 10000 ≤ pipeHandle slot write := by
  unfold pipeHandle pipeHandleBase
  split
  · omega
  · omega

/-- Different ends have different handles. -/
theorem pipeHandle_inj {slot slot' : Fin 16} {write write' : Bool}
    (h : pipeHandle slot write = pipeHandle slot' write') :
    slot = slot' ∧ write = write' := by
  unfold pipeHandle at h
  cases write
  · cases write'
    · exact ⟨Fin.ext (by simp at h; omega), rfl⟩
    · simp at h
      omega
  · cases write'
    · simp at h
      omega
    · exact ⟨Fin.ext (by simp at h; omega), rfl⟩

def held (p : Pcb) (handle : Int) : Nat := if p.used then p.fdTable.count handle else 0

def holders (t : Table) (handle : Int) : Nat := ∑ i, held (t.pcbs i) handle

def liveHolders (t : Table) (handle : Int) : Nat :=
  ∑ i, if waitpidReapable (t.pcbs i).state then 0 else held (t.pcbs i) handle

def NoPipes (p : Pcb) : Prop := ∀ slot write, pipeHandle slot write ∉ p.fdTable

/-- A process without pipes holds no end. -/
theorem NoPipes.held (h : NoPipes p) (slot : Fin 16) (write : Bool) :
    held p (pipeHandle slot write) = 0 := by
  unfold Analysis.held
  split
  · exact List.count_eq_zero.mpr (h slot write)
  · rfl

/-- An entry that is not in use holds nothing. -/
theorem held_unused (h : p.used = false) (handle : Int) : held p handle = 0 := by
  unfold held
  rw [h, if_neg Bool.false_ne_true]

/-- Changing one summand changes the sum by it. -/
theorem sum_update_add {ι α : Type} [Fintype ι] [DecidableEq ι] (f : ι → α) (i : ι) (b : α)
    (g : α → Nat) :
    ∑ j, g (Function.update f i b j) + g (f i) = ∑ j, g (f j) + g b := by
  have hcomp (j : ι) : g (Function.update f i b j) = Function.update (g ∘ f) i (g b) j := by
    rw [← Function.comp_update]
    rfl
  rw [Finset.sum_congr rfl fun j _ => hcomp j, Finset.sum_update_of_mem (Finset.mem_univ i),
    ← Finset.sum_sdiff (Finset.subset_univ {i}) (f := fun j => g (f j)), Finset.sum_singleton]
  simp only [Function.comp_apply]
  omega

/-- The holders of a handle change with the one entry that changes. -/
theorem holders_setPcb {t t' : Table} (h : t'.pcbs = Function.update t.pcbs i p) (handle : Int) :
    holders t' handle + held (t.pcbs i) handle = holders t handle + held p handle := by
  unfold holders
  rw [h]
  exact sum_update_add t.pcbs i p fun p => held p handle

/-- Entries with the same descriptors have the same holders. -/
theorem holders_sameSlots {t t' : Table} (h : SameSlots t t') (handle : Int) :
    holders t' handle = holders t handle := by
  unfold holders
  apply Finset.sum_congr rfl
  intro i _
  unfold held
  rw [h.used, h.fdTable]

/-- A handle without holders is in no table. -/
theorem not_held_of_holders {t : Table} {handle : Int} (h : holders t handle = 0)
    (hi : (t.pcbs i).used = true) : handle ∉ (t.pcbs i).fdTable := by
  have := (Finset.sum_eq_zero_iff.mp h) i (Finset.mem_univ i)
  unfold held at this
  rw [hi, if_pos rfl] at this
  exact List.count_eq_zero.mp this

def endRefs (pipe : PipeEntry) (write : Bool) : Nat :=
  if write then pipe.writeRefs else pipe.readRefs

structure PipeInv (s : State) : Prop where
  slots : SlotsAgree s.table
  refs : ∀ slot write, endRefs (s.pipes slot) write = holders s.table (pipeHandle slot write)
  unused : ∀ slot, (s.pipes slot).used = false → ∀ write, endRefs (s.pipes slot) write = 0
  ended : ∀ i, (s.table.pcbs i).used = true → waitpidReapable (s.table.pcbs i).state = true → NoPipes (s.table.pcbs i)

/-- A process starts with its standard descriptors, which are no pipes. -/
theorem noPipes_pcbFdInit (p : Pcb) : NoPipes (pcbFdInit p) := by
  intro slot write hmem
  have hge := pipeHandle_ge slot write
  unfold pcbFdInit at hmem
  simp only [List.cons_append, List.nil_append, List.mem_cons, List.mem_replicate] at hmem
  omega

theorem noPipes_freshChild (slot : Fin 64) (pid : Nat) (parentPid : Int) :
    NoPipes (freshChild slot pid parentPid) := by
  intro pipe write hmem
  have hge := pipeHandle_ge pipe write
  have := List.eq_of_mem_replicate hmem
  omega

/-- A child of a process without pipes has none. -/
theorem noPipes_childPcb {t : Table} {parentPid : Int}
    (h : ∀ j, (t.pcbs j).used = true → signed (t.pcbs j).pid = parentPid → NoPipes (t.pcbs j)) :
    NoPipes (childPcb t i parentPid) := by
  unfold childPcb
  dsimp only
  cases hfind : pcbFindByPid (t.setPcb i (freshChild i t.nextPid parentPid)) parentPid with
  | none => exact noPipes_pcbFdInit _
  | some j =>
    have hpar : NoPipes ((t.setPcb i (freshChild i t.nextPid parentPid)).pcbs j) := by
      by_cases hj : j = i
      · subst hj
        rw [show (t.setPcb j (freshChild j t.nextPid parentPid)).pcbs j = freshChild j t.nextPid parentPid from
          Function.update_self _ _ _]
        exact noPipes_freshChild j t.nextPid parentPid
      · have hspec := List.find?_some hfind
        have hother : (t.setPcb i (freshChild i t.nextPid parentPid)).pcbs j = t.pcbs j :=
          Function.update_of_ne hj _ _
        rw [hother, Bool.and_eq_true, decide_eq_true_eq] at hspec
        rw [hother]
        exact h j hspec.1 hspec.2
    exact hpar

section

variable {s : State} {t' : Table}

/-- A process that is made without pipes keeps the counts. -/
theorem PipeInv.made (h : PipeInv s) (hmade : Made s.table i p t') (hp : NoPipes p)
    (hstate : waitpidReapable p.state = false)
    (hold : (∀ j, s.table.pool.map j = true) → recycled s.table = some i →
      NoPipes (s.table.pcbs i)) :
    PipeInv { s with table := t' } := by
  have hempty (slot : Fin 16) (write : Bool) : held (s.table.pcbs i) (pipeHandle slot write) = 0 := by
    rcases hmade.slot with hfree | ⟨hfull, hrec⟩
    · apply held_unused
      rw [h.slots.used, hfree]
    · exact (hold hfull hrec).held slot write
  refine ⟨h.slots.made hmade, fun slot write => ?_, h.unused, fun j hused hended => ?_⟩
  · have := holders_setPcb hmade.pcbs (pipeHandle slot write)
    rw [hempty, hp.held, Nat.add_zero, Nat.add_zero] at this
    rw [h.refs]
    exact this.symm
  · dsimp only at hused hended ⊢
    rw [hmade.pcbs] at hused hended ⊢
    by_cases hj : j = i
    · rw [hj, Function.update_self, hstate] at hended
      exact absurd hended Bool.false_ne_true
    · rw [Function.update_of_ne hj] at hused hended ⊢
      exact h.ended j hused hended

/-- A process that is collected has no pipes any more. -/
theorem PipeInv.collected (h : PipeInv s) (hcoll : Collected s.table i t') :
    PipeInv { s with table := t' } := by
  have hold := h.ended i hcoll.used hcoll.reapable
  refine ⟨h.slots.collected hcoll, fun slot write => ?_, h.unused, fun j hused hended => ?_⟩
  · have := holders_setPcb hcoll.pcbs (pipeHandle slot write)
    rw [hold.held, held_unused rfl, Nat.add_zero, Nat.add_zero] at this
    rw [h.refs]
    exact this.symm
  · dsimp only at hused hended ⊢
    rw [hcoll.pcbs] at hused hended ⊢
    by_cases hj : j = i
    · rw [hj, Function.update_self] at hused
      exact absurd hused Bool.false_ne_true
    · rw [Function.update_of_ne hj] at hused hended ⊢
      exact h.ended j hused hended

/-- Calls that change no descriptor keep the counts. -/
theorem PipeInv.sameSlots (h : PipeInv s) (hsame : SameSlots s.table t')
    (hended : ∀ i, (s.table.pcbs i).used = true → waitpidReapable (t'.pcbs i).state = true →
      waitpidReapable (s.table.pcbs i).state = true ∨ NoPipes
      (s.table.pcbs i)) : PipeInv { s with table := t' } := by
  refine ⟨⟨fun i => ?_, ?_⟩, fun slot write => ?_, h.unused, fun i hused hreap => ?_⟩
  · rw [hsame.used, hsame.pool, h.slots.used]
  · rw [hsame.pool, h.slots.count]
  · rw [h.refs, holders_sameSlots hsame]
  · dsimp only at hused hreap ⊢
    rw [hsame.used] at hused
    have hold : NoPipes (s.table.pcbs i) := by
      rcases hended i hused hreap with hreap' | hnone
      · exact h.ended i hused hreap'
      · exact hnone
    intro slot write
    rw [hsame.fdTable]
    exact hold slot write

end

/-- Finishing a process changes the state of this process and of a parent that waits. -/
theorem state_pcbFinishProcess (pid : Int) (state : PcbState) (exitCode : Int) (t : Table)
    (i : Fin 64) :
    ((pcbFinishProcess pid state exitCode t).pcbs i).state = (t.pcbs i).state ∨
      ((pcbFinishProcess pid state exitCode t).pcbs i).state = .ready ∨
      pcbFindByPid t pid = some i ∧
      ((pcbFinishProcess pid state exitCode t).pcbs i).state = state := by
  have hwake (u : Table) (p : Pcb) :
      ((pcbWakeParent pid p u).pcbs i).state = (u.pcbs i).state ∨ ((pcbWakeParent pid p u).pcbs i).state = .ready := by
    unfold pcbWakeParent
    split
    · exact Or.inl rfl
    · next j _ =>
      split
      · by_cases hi : i = j
        · right
          unfold Table.setPcb
          dsimp only
          rw [hi, Function.update_self]
        · left
          unfold Table.setPcb
          dsimp only
          rw [Function.update_of_ne hi]
      · exact Or.inl rfl
  unfold pcbFinishProcess
  split
  · exact Or.inl rfl
  · next j hj =>
    dsimp only
    have hcurrent (u : Table) : (if u.currentPid = pid then { u with currentPid := -1 } else u).pcbs = u.pcbs := by
      split
      · rfl
      · rfl
    have hset : (((t.setPcb j { t.pcbs j with state := state, exitCode := exitCode }).pcbs i).state = (t.pcbs i).state) ∨
        i = j ∧ ((t.setPcb j { t.pcbs j with state := state, exitCode := exitCode }).pcbs i).state = state := by
      unfold Table.setPcb
      dsimp only
      by_cases hi : i = j
      · right
        rw [hi, Function.update_self]
        exact ⟨rfl, rfl⟩
      · left
        rw [Function.update_of_ne hi]
    rcases hwake (if (t.setPcb j { t.pcbs j with state := state, exitCode := exitCode }).currentPid = pid then
        { t.setPcb j { t.pcbs j with state := state, exitCode := exitCode } with currentPid := -1 }
      else t.setPcb j { t.pcbs j with state := state, exitCode := exitCode })
      { t.pcbs j with state := state, exitCode := exitCode } with h | h
    · rw [h, hcurrent]
      rcases hset with hset | ⟨hi, hset⟩
      · exact Or.inl hset
      · exact Or.inr (Or.inr ⟨by rw [hi, hj], hset⟩)
    · exact Or.inr (Or.inl h)

theorem count_set_of_ne {i : Nat} {old new h : Int} (hold : l[i]? = some old) (hne : old ≠ h) :
    (l.set i new).count h = l.count h + if new = h then 1 else 0 := by
  obtain ⟨hlt, hget⟩ := List.getElem?_eq_some_iff.mp hold
  rw [List.count_set hlt, hget, beq_false_of_ne hne, if_neg Bool.false_ne_true, Nat.sub_zero]
  simp only [beq_iff_eq]

theorem count_set_self {i : Nat} {new h : Int} (hold : l[i]? = some h) (hne : new ≠ h) :
    (l.set i new).count h + 1 = l.count h := by
  obtain ⟨hlt, hget⟩ := List.getElem?_eq_some_iff.mp hold
  have hpos : 0 < l.count h := List.count_pos_iff.mpr (List.mem_of_getElem? hold)
  rw [List.count_set hlt, hget, beq_self_eq_true, if_pos rfl, beq_false_of_ne hne,
    if_neg Bool.false_ne_true]
  omega

/-- A descriptor that is allocated was free and is reserved. -/
theorem pcbFdAlloc_some {p p' : Pcb} {fd : Nat} (h : pcbFdAlloc p = (some fd, p')) :
    p.fdTable[fd]? = some (-1) ∧ fd < 64 ∧ p' = { p with fdTable := p.fdTable.set fd (-2) } := by
  unfold pcbFdAlloc at h
  split at h
  · next i hfind =>
    simp only [Prod.mk.injEq, Option.some.injEq] at h
    obtain ⟨rfl, rfl⟩ := h
    have hmem := List.mem_range'_1.mp (List.mem_of_find?_eq_some hfind)
    have hspec := List.find?_some hfind
    rw [decide_eq_true_eq] at hspec
    exact ⟨hspec, by omega, rfl⟩
  · cases h

/-- A failed allocation changes nothing. -/
theorem pcbFdAlloc_none {p p' : Pcb} (h : pcbFdAlloc p = (none, p')) : p' = p := by
  unfold pcbFdAlloc at h
  split at h
  · cases h
  · exact (Prod.mk.inj h).2.symm

theorem pcbFdSet_nat (p : Pcb) {fd : Nat} (h : fd < 64) (handle : Int) :
    pcbFdSet p fd handle = { p with fdTable := p.fdTable.set fd handle } := by
  unfold pcbFdSet
  rw [if_neg (by omega), Int.toNat_natCast]

/-- Freeing a descriptor frees its place in the table. -/
theorem fdTable_pcbFdFree (p : Pcb) {fd : Int} (h : ¬ (fd < 0 ∨ fd ≥ 64)) :
    (pcbFdFree p fd).fdTable = p.fdTable.set fd.toNat (-1) := by
  unfold pcbFdFree
  rw [if_neg h]

theorem used_pcbFdFree (p : Pcb) (fd : Int) : (pcbFdFree p fd).used = p.used := by
  unfold pcbFdFree
  split
  · rfl
  · rfl

theorem state_pcbFdFree (p : Pcb) (fd : Int) : (pcbFdFree p fd).state = p.state := by
  unfold pcbFdFree
  split
  · rfl
  · rfl

theorem pcbGetCurrent_used {t : Table} (h : pcbGetCurrent t = some i) : (t.pcbs i).used = true := by
  unfold pcbGetCurrent pcbFindByPid at h
  split at h
  · cases h
  · have := List.find?_some h
    rw [Bool.and_eq_true] at this
    exact this.1

/-- Without pipes means that no handle of a pipe is in the table. -/
theorem noPipes_iff_count : NoPipes p ↔ ∀ slot write, p.fdTable.count (pipeHandle slot write) = 0 := by
  unfold NoPipes
  simp only [List.count_eq_zero]

/-- A call of the current process that changes its table and a pipe alike keeps the counts. -/
theorem PipeInv.change {s : State} (h : PipeInv s) {cur : Fin 64}
    (hcur : (s.table.pcbs cur).used = true) (hused : p.used = true)
    (hstate : p.state = (s.table.pcbs cur).state)
    (hcount : ∀ sl write, endRefs (Function.update s.pipes slot pipe sl) write +
        (s.table.pcbs cur).fdTable.count (pipeHandle sl write) =
      endRefs (s.pipes sl) write + p.fdTable.count (pipeHandle sl write))
    (hidle : pipe.used = false → ∀ write, endRefs pipe write = 0)
    (hended : waitpidReapable (s.table.pcbs cur).state = true → NoPipes p) :
    PipeInv ((s.setPcb cur p).setPipe slot pipe) := by
  have hpcbs : (s.table.setPcb cur p).pcbs = Function.update s.table.pcbs cur p := rfl
  refine ⟨⟨fun i => ?_, h.slots.count⟩, fun sl write => ?_, fun sl hsl write => ?_,
    fun i hi hreap => ?_⟩
  · change (Function.update s.table.pcbs cur p i).used = s.table.pool.map i
    by_cases hi : i = cur
    · rw [hi, Function.update_self, hused, ← h.slots.used, hcur]
    · rw [Function.update_of_ne hi, h.slots.used]
  · change endRefs (Function.update s.pipes slot pipe sl) write = holders (s.table.setPcb cur p) (pipeHandle sl write)
    have hsum := holders_setPcb hpcbs (pipeHandle sl write)
    have hc := hcount sl write
    rw [h.refs] at hc
    unfold held at hsum
    rw [hcur, hused, if_pos rfl, if_pos rfl] at hsum
    omega
  · change (Function.update s.pipes slot pipe sl).used = false at hsl
    change endRefs (Function.update s.pipes slot pipe sl) write = 0
    by_cases hs : sl = slot
    · rw [hs, Function.update_self] at hsl ⊢
      exact hidle hsl write
    · rw [Function.update_of_ne hs] at hsl ⊢
      exact h.unused sl hsl write
  · change (Function.update s.table.pcbs cur p i).used = true at hi
    change waitpidReapable (Function.update s.table.pcbs cur p i).state = true at hreap
    change NoPipes (Function.update s.table.pcbs cur p i)
    by_cases hic : i = cur
    · rw [hic, Function.update_self] at hreap ⊢
      rw [hstate] at hreap
      exact hended hreap
    · rw [Function.update_of_ne hic] at hi hreap ⊢
      exact h.ended i hi hreap

/-- A call that changes neither count keeps them. -/
theorem PipeInv.keep {s : State} (h : PipeInv s) {cur : Fin 64} (slot : Fin 16)
    (hcur : (s.table.pcbs cur).used = true) (hused : p.used = true)
    (hstate : p.state = (s.table.pcbs cur).state)
    (hcount : ∀ sl write, p.fdTable.count (pipeHandle sl write) =
      (s.table.pcbs cur).fdTable.count (pipeHandle sl write)) :
    PipeInv ((s.setPipe slot { s.pipes slot with buffer := false }).setPcb cur p) := by
  have hsame (sl : Fin 16) (write : Bool) :
      endRefs (Function.update s.pipes slot { s.pipes slot with buffer := false } sl) write = endRefs (s.pipes sl) write := by
    by_cases hs : sl = slot
    · rw [hs, Function.update_self]
      rfl
    · rw [Function.update_of_ne hs]
  refine h.change hcur hused hstate (fun sl write => ?_) (h.unused slot) (fun hreap => ?_)
  · rw [hsame, hcount]
  · rw [noPipes_iff_count]
    intro sl write
    rw [hcount, noPipes_iff_count.mp (h.ended cur hcur hreap)]

/-- Both ends of a new pipe are entered once. -/
theorem count_fill {r w : Nat} {read write h : Int} (hh : 0 ≤ h) (hr : l[r]? = some (-1))
    (hw : (l.set r (-2))[w]? = some (-1)) :
    ((((l.set r (-2)).set w (-2)).set r read).set w write).count h =
      l.count h + (if read = h then 1 else 0) + if write = h then 1 else 0 := by
  obtain ⟨hrl, -⟩ := List.getElem?_eq_some_iff.mp hr
  obtain ⟨hwl, -⟩ := List.getElem?_eq_some_iff.mp hw
  have hne : w ≠ r := by
    rintro rfl
    rw [List.getElem?_set_self hrl] at hw
    cases hw
  have hr' : ((l.set r (-2)).set w (-2))[r]? = some (-2) := by
    rw [List.getElem?_set_ne hne, List.getElem?_set_self hrl]
  have hw' : (((l.set r (-2)).set w (-2)).set r read)[w]? = some (-2) := by
    rw [List.getElem?_set_ne hne.symm, List.getElem?_set_self hwl]
  have hneg {v : Int} (hv : v < 0) : v ≠ h := by omega
  rw [count_set_of_ne hw' (hneg (by decide)), count_set_of_ne hr' (hneg (by decide)),
    count_set_of_ne hw (hneg (by decide)), count_set_of_ne hr (hneg (by decide)), if_neg (hneg (by decide)), Nat.add_zero]

/-- A reserved place that is given back held nothing. -/
theorem count_giveBack {r : Nat} {h : Int} (hh : 0 ≤ h) (hr : l[r]? = some (-1)) :
    ((l.set r (-2)).set r (-1)).count h = l.count h := by
  have hneg {v : Int} (hv : v < 0) : v ≠ h := by omega
  rw [List.set_set, count_set_of_ne hr (hneg (by decide)), if_neg (hneg (by decide)), Nat.add_zero]

theorem setPcb_self (s : State) (i : Fin 64) : s.setPcb i (s.table.pcbs i) = s := by
  unfold State.setPcb Table.setPcb
  rw [Function.update_eq_self]

/-- One of the two new handles is that of the end in question. -/
theorem pipeHandle_ends (slot sl : Fin 16) (write : Bool) :
    ((if pipeHandleBase + (slot : Int) * 2 = pipeHandle sl write then 1 else 0) +
      if pipeHandleBase + (slot : Int) * 2 + 1 = pipeHandle sl write then 1 else 0) = if sl =
      slot then 1 else 0 := by
  have hread : pipeHandleBase + (slot : Int) * 2 = pipeHandle slot false := by simp [pipeHandle]
  have hwrite : pipeHandleBase + (slot : Int) * 2 + 1 = pipeHandle slot true := by simp [pipeHandle]
  rw [hwrite, hread]
  have hne (sl : Fin 16) : pipeHandle sl true ≠ pipeHandle sl false :=
    fun h => absurd (pipeHandle_inj h).2.symm Bool.false_ne_true
  by_cases hs : sl = slot
  · subst hs
    cases write
    · rw [if_pos rfl, if_neg (hne sl), if_pos rfl]
    · rw [if_neg (hne sl).symm, if_pos rfl, if_pos rfl]
  · have hother (e : Bool) : pipeHandle slot e ≠ pipeHandle sl write :=
      fun h => hs (pipeHandle_inj h).1.symm
    rw [if_neg (hother false), if_neg (hother true), if_neg hs]

/-- `pipe_create` counts one reference for each end it enters. -/
theorem pipeInv_pipeCreate {s : State} (h : PipeInv s) (outOk bufferOk : Bool)
    (hlive : ∀ cur, pcbGetCurrent s.table = some cur →
      waitpidReapable (s.table.pcbs cur).state = false) :
    PipeInv (pipeCreate outOk bufferOk s).2 := by
  have hpos (sl : Fin 16) (write : Bool) : 0 ≤ pipeHandle sl write := by
    have := pipeHandle_ge sl write
    omega
  unfold pipeCreate
  split
  · exact h
  · next cur hcurrent =>
    have hcur := pcbGetCurrent_used hcurrent
    split
    · exact h
    · split
      · exact h
      · next slot hslot =>
        have hslot' : (s.pipes slot).used = false := by simpa using List.find?_some hslot
        split
        · have hself := setPcb_self (s.setPipe slot { s.pipes slot with buffer := false }) cur
          dsimp only
          rw [← hself]
          exact h.keep slot hcur hcur rfl fun _ _ => rfl
        · dsimp only
          generalize hr : pcbFdAlloc (s.table.pcbs cur) = r
          obtain ⟨rfd, p⟩ := r
          generalize hw : pcbFdAlloc p = w
          obtain ⟨wfd, q⟩ := w
          cases rfd with
          | none =>
            have hp := pcbFdAlloc_none hr
            subst hp
            rw [hr] at hw
            obtain ⟨rfl, rfl⟩ := Prod.mk.inj hw
            exact h.keep slot hcur hcur rfl fun _ _ => rfl
          | some r =>
            obtain ⟨hr1, hr64, rfl⟩ := pcbFdAlloc_some hr
            cases wfd with
            | none =>
              have hq := pcbFdAlloc_none hw
              subst hq
              refine h.keep slot hcur ?_ ?_ fun sl write => ?_
              · rw [used_pcbFdFree]
                exact hcur
              · rw [state_pcbFdFree]
              · rw [fdTable_pcbFdFree _ (by omega), Int.toNat_natCast]
                exact count_giveBack (hpos sl write) hr1
            | some w =>
              obtain ⟨hw1, hw64, rfl⟩ := pcbFdAlloc_some hw
              dsimp only
              rw [pcbFdSet_nat _ hr64, pcbFdSet_nat _ hw64]
              refine h.change hcur hcur rfl (fun sl write => ?_) (fun hidle => ?_) (fun hreap => ?_)
              · dsimp only
                rw [count_fill (hpos sl write) hr1 hw1, Nat.add_assoc _ (ite _ _ _),
                  pipeHandle_ends]
                by_cases hs : sl = slot
                · rw [hs, Function.update_self, if_pos rfl, h.unused slot hslot']
                  unfold endRefs
                  split
                  · dsimp only
                    omega
                  · dsimp only
                    omega
                · rw [Function.update_of_ne hs, if_neg hs, Nat.add_zero]
              · cases hidle
              · rw [hlive cur hcurrent] at hreap
                exact absurd hreap Bool.false_ne_true

theorem held_le_holders (t : Table) (i : Fin 64) (handle : Int) :
    held (t.pcbs i) handle ≤ holders t handle :=
  Finset.single_le_sum (f := fun i => held (t.pcbs i) handle) (fun _ _ => Nat.zero_le _) (Finset.mem_univ i)

/-- A descriptor with a handle of a pipe has it in the table. -/
theorem pcbFdGetHandle_pipe {fd : Int}
    (h : pcbFdGetHandle p fd = pipeHandle slot write) :
    ¬ (fd < 0 ∨ fd ≥ 64) ∧ p.fdTable[fd.toNat]? = some (pipeHandle slot write) := by
  have hge := pipeHandle_ge slot write
  unfold pcbFdGetHandle at h
  split at h
  · omega
  · next hrange =>
    refine ⟨hrange, ?_⟩
    rw [List.getD_eq_getElem?_getD] at h
    cases hget : p.fdTable[fd.toNat]? with
    | none =>
      rw [hget, Option.getD_none] at h
      omega
    | some v =>
      rw [hget, Option.getD_some] at h
      rw [h]

/-- Freeing an idle pipe changes no count. -/
theorem endRefs_pipeFreeIfIdle (pipe : PipeEntry) (write : Bool) :
    endRefs (pipeFreeIfIdle pipe) write = endRefs pipe write := by
  unfold pipeFreeIfIdle
  split
  · rfl
  · rfl

/-- A pipe that is freed has no references. -/
theorem endRefs_of_freed (hused : pipe.used = true) (h : (pipeFreeIfIdle pipe).used = false)
    (write : Bool) : endRefs pipe write = 0 := by
  unfold pipeFreeIfIdle at h
  split at h
  · next hzero =>
    unfold endRefs
    split
    · exact hzero.2
    · exact hzero.1
  · rw [hused] at h
    cases h

def dropRef (pipe : PipeEntry) (write : Bool) : PipeEntry :=
  if !write then { pipe with readRefs := if pipe.readRefs > 0 then pipe.readRefs - 1 else pipe.readRefs }
  else { pipe with writeRefs := if pipe.writeRefs > 0 then pipe.writeRefs - 1 else pipe.writeRefs }

/-- Dropping a reference lowers the count of this end. -/
theorem endRefs_dropRef (hpos : 0 < endRefs pipe write) (e : Bool) :
    endRefs (dropRef pipe write) e + (if e = write then 1 else 0) = endRefs pipe e := by
  unfold dropRef endRefs at *
  cases write
  · cases e
    · simp only [Bool.false_eq_true, if_false] at hpos
      simp only [Bool.not_false, if_true, gt_iff_lt, hpos, Bool.false_eq_true, if_false]
      omega
    · simp
  · cases e
    · simp
    · simp only [if_true] at hpos
      simp only [Bool.not_true, Bool.false_eq_true, if_false, if_true, gt_iff_lt, hpos]
      omega

theorem used_dropRef (pipe : PipeEntry) (write : Bool) : (dropRef pipe write).used = pipe.used := by
  cases write
  · rfl
  · rfl

/-- `pipe_close_fd` drops the reference that it takes out of the table. -/
theorem pipeInv_pipeCloseFd {s : State} (h : PipeInv s) (fd : Int) :
    PipeInv (pipeCloseFd fd s) := by
  unfold pipeCloseFd
  split
  · exact h
  · next cur hcurrent =>
    have hcur := pcbGetCurrent_used hcurrent
    split
    · exact h
    · next slot write hdecode =>
      dsimp only
      split
      · exact h
      · next hopen =>
        have hopen' : (s.pipes slot).used = true := by simpa using hopen
        obtain ⟨hrange, hget⟩ := pcbFdGetHandle_pipe (pipeDecodeHandle_some hdecode)
        have hmem : pipeHandle slot write ∈ (s.table.pcbs cur).fdTable := List.mem_of_getElem? hget
        have hpos : 0 < endRefs (s.pipes slot) write := by
          have hle := held_le_holders s.table cur (pipeHandle slot write)
          have hcount := List.count_pos_iff.mpr hmem
          rw [h.refs]
          unfold held at hle
          rw [hcur, if_pos rfl] at hle
          omega
        have hdrop := endRefs_dropRef hpos
        refine h.change (p := pcbFdFree (s.table.pcbs cur) fd) hcur ?_ ?_ (fun sl e => ?_)
          (fun hfreed e => ?_)
          (fun hreap => absurd hmem (h.ended cur hcur hreap slot write))
        · rw [used_pcbFdFree, hcur]
        · rw [state_pcbFdFree]
        · rw [fdTable_pcbFdFree _ hrange]
          by_cases hend : sl = slot ∧ e = write
          · obtain ⟨rfl, rfl⟩ := hend
            have hless := count_set_self hget (show (-1 : Int) ≠ pipeHandle sl e by have := pipeHandle_ge sl e; omega)
            have hdrop' := hdrop e
            rw [if_pos rfl] at hdrop'
            rw [Function.update_self, endRefs_pipeFreeIfIdle]
            change endRefs (dropRef (s.pipes sl) e) e + _ = _
            omega
          · have hne : pipeHandle slot write ≠ pipeHandle sl e := by
              intro heq
              obtain ⟨rfl, rfl⟩ := pipeHandle_inj heq
              exact hend ⟨rfl, rfl⟩
            have hminus : (-1 : Int) ≠ pipeHandle sl e := by
              have := pipeHandle_ge sl e
              omega
            rw [count_set_of_ne hget hne, if_neg hminus, Nat.add_zero]
            by_cases hs : sl = slot
            · subst hs
              have hdrop' := hdrop e
              rw [if_neg (fun he => hend ⟨rfl, he⟩), Nat.add_zero] at hdrop'
              rw [Function.update_self, endRefs_pipeFreeIfIdle]
              change endRefs (dropRef (s.pipes sl) write) e + _ = _
              rw [hdrop']
            · rw [Function.update_of_ne hs]
        · rw [endRefs_pipeFreeIfIdle]
          exact endRefs_of_freed ((used_dropRef (s.pipes slot) write).trans hopen') hfreed e

/-- What a call must not do for the counters to stay right: make a child of a process that holds a
pipe, end such a process, or take its slot for another; and only a process that has not ended makes
a pipe. -/
def HandsOffPipes (s : State) : Monios.Model.Pipe.Action → Prop
  | .pipeCreate _ _ => ∀ i, pcbGetCurrent s.table = some i →
    waitpidReapable (s.table.pcbs i).state = false
  | .pipeCloseFd _ => True
  | .proc a =>
    (Action.creates a = true → (∀ j, s.table.pool.map j = true) →
      ∀ i, recycled s.table = some i → NoPipes (s.table.pcbs i)) ∧
    match a with
    | .createChild parentPid =>
      pcbClaimSlot s.table ≠ none →
        ∀ i, (s.table.pcbs i).used = true → signed (s.table.pcbs i).pid = parentPid → NoPipes (s.table.pcbs i)
    | .exit pid _ => ∀ i, pcbFindByPid s.table pid = some i → NoPipes (s.table.pcbs i)
    | .abort pid _ => ∀ i, pcbFindByPid s.table pid = some i → NoPipes (s.table.pcbs i)
    | .fault pid _ => ∀ i, pcbFindByPid s.table pid = some i → NoPipes (s.table.pcbs i)
    | .setState pid state =>
      waitpidReapable state = true → ∀ i, pcbFindByPid s.table pid = some i → NoPipes (s.table.pcbs i)
    | _ => True

section

variable {s : State}

/-- A process that ends without pipes keeps the counts. -/
theorem PipeInv.finish (h : PipeInv s) (pid : Int) (state : PcbState) (exitCode : Int)
    (hnone : waitpidReapable state = true → ∀ i, pcbFindByPid s.table pid = some i →
      NoPipes (s.table.pcbs i)) :
    PipeInv { s with table := pcbFinishProcess pid state exitCode s.table } := by
  refine h.sameSlots (sameSlots_pcbFinishProcess pid state exitCode s.table) fun i _ hreap => ?_
  rcases state_pcbFinishProcess pid state exitCode s.table i with hst | hst | ⟨hfind, hst⟩
  · rw [hst] at hreap
    exact Or.inl hreap
  · rw [hst] at hreap
    cases hreap
  · rw [hst] at hreap
    exact Or.inr (hnone hreap i hfind)

/-- A change of state keeps the counts. -/
theorem PipeInv.setState (h : PipeInv s) (pid : Int) (state : PcbState)
    (hnone : waitpidReapable state = true → ∀ i, pcbFindByPid s.table pid = some i →
      NoPipes (s.table.pcbs i)) :
    PipeInv { s with table := pcbSetState pid state s.table } := by
  refine h.sameSlots (sameSlots_pcbSetState pid state s.table) fun i _ hreap => ?_
  unfold pcbSetState at hreap
  cases hfind : pcbFindByPid s.table pid with
  | none =>
    rw [hfind] at hreap
    exact Or.inl hreap
  | some j =>
    rw [hfind] at hreap
    unfold Table.setPcb at hreap
    dsimp only at hreap
    by_cases hi : i = j
    · rw [hi, Function.update_self] at hreap
      rw [hi]
      exact Or.inr (hnone hreap j hfind)
    · rw [Function.update_of_ne hi] at hreap
      exact Or.inl hreap

/-- Every call keeps the counts when a process with pipes neither ends nor gets a child. -/
theorem pipeInv_step (s : State) (a : Monios.Model.Pipe.Action) (s' : State)
    (hc : HandsOffPipes s a) (h : PipeInv s) (hstep : Monios.Model.Pipe.step s a = some s') :
    PipeInv s' := by
  rw [← Option.some.inj hstep]
  cases a with
  | pipeCreate outOk bufferOk => exact pipeInv_pipeCreate h outOk bufferOk hc
  | pipeCloseFd fd => exact pipeInv_pipeCloseFd h fd
  | proc a =>
    obtain ⟨hslot, hc⟩ := hc
    cases a with
    | start path =>
      change PipeInv { s with table := (pcbProcessStart path s.table).2 }
      rcases made_pcbProcessStart path s.table with ⟨i, hmade⟩ | ⟨-, -, heq⟩
      · exact h.made hmade (noPipes_pcbFdInit _) rfl fun hfull hrec => hslot rfl hfull i hrec
      · rw [heq]
        exact h
    | createChild parentPid =>
      change PipeInv { s with table := (pcbCreateChild parentPid s.table).2 }
      by_cases hclaim : pcbClaimSlot s.table = none
      · unfold pcbCreateChild
        rw [hclaim]
        exact h
      · rcases made_pcbCreateChild parentPid s.table with ⟨i, hmade⟩ | ⟨-, -, heq⟩
        · refine h.made hmade (noPipes_childPcb (hc hclaim)) ?_ fun hfull hrec =>
            hslot rfl hfull i hrec
          rw [childPcb_state]
          rfl
        · rw [heq]
          exact h
    | exit pid exitCode => exact h.finish pid _ exitCode fun _ => hc
    | abort pid exitCode => exact h.finish pid _ exitCode fun _ => hc
    | fault pid exitCode => exact h.finish pid _ exitCode fun _ => hc
    | stop pid => exact h.finish pid .stopped (-1) fun hreap => absurd hreap Bool.false_ne_true
    | setState pid state => exact h.setState pid state hc
    | setCurrent pid => exact h.sameSlots ⟨fun _ => rfl, fun _ => rfl, fun _ => rfl, rfl, rfl⟩ fun i _ hreap => Or.inl hreap
    | waitChild parentPid =>
      change PipeInv { s with table := apply s.table (.waitChild parentPid) }
      rcases collected_pcbWaitChild parentPid s.table with heq | ⟨i, hcoll⟩
      · rw [heq]
        exact h
      · exact h.collected hcoll
    | reapChild parentPid childPid =>
      change PipeInv { s with table := apply s.table (.reapChild parentPid childPid) }
      rcases collected_pcbReapChild parentPid childPid s.table with heq | ⟨i, hcoll⟩
      · rw [heq]
        exact h
      · exact h.collected hcoll

theorem pipeInv_init : PipeInv {} := by
  have hnone (handle : Int) : holders pcbInit handle = 0 := by
    unfold holders
    apply Finset.sum_eq_zero
    intro i _
    exact held_unused rfl handle
  refine ⟨slotsAgree_pcbInit, fun slot write => ?_, fun slot _ write => ?_,
    fun i hused => absurd hused Bool.false_ne_true⟩
  · rw [hnone]
    cases write
    · rfl
    · rfl
  · cases write
    · rfl
    · rfl

/-- Processes that have ended hold no end. -/
theorem PipeInv.liveHolders (h : PipeInv s) (slot : Fin 16) (write : Bool) :
    liveHolders s.table (pipeHandle slot write) = holders s.table (pipeHandle slot write) := by
  unfold Analysis.liveHolders holders
  apply Finset.sum_congr rfl
  intro i _
  split
  · next hreap =>
    cases hused : (s.table.pcbs i).used with
    | false => rw [held_unused hused]
    | true => rw [(h.ended i hused hreap).held]
  · rfl

end

/-- The counters of a pipe in use are the numbers of descriptors for its ends that processes hold
which have not ended, and nobody in the table holds a handle of a pipe that is not in use, which is
one that `pipe_create` may take. -/
structure RefsExact (s : State) : Prop where
  inUse : ∀ slot, (s.pipes slot).used = true → (s.pipes slot).readRefs = liveHolders s.table (pipeHandle slot false) ∧
      (s.pipes slot).writeRefs = liveHolders s.table (pipeHandle slot true)
  notInUse : ∀ slot, (s.pipes slot).used = false → ∀ i, (s.table.pcbs i).used = true →
    ∀ write, pipeHandle slot write ∉ (s.table.pcbs i).fdTable

/-- In every run whose calls neither copy nor drop the descriptors of a process that holds a pipe,
the counters are right. -/
theorem pipeRefs_run (as : List Monios.Model.Pipe.Action) (s : State)
    (h : RunWhile Monios.Model.Pipe.step HandsOffPipes {} as s) : RefsExact s := by
  have hinv : PipeInv s := h.invariant pipeInv_step pipeInv_init
  refine ⟨fun slot _ => ⟨?_, ?_⟩, fun slot hslot i hi write => ?_⟩
  · rw [hinv.liveHolders]
    exact hinv.refs slot false
  · rw [hinv.liveHolders]
    exact hinv.refs slot true
  · apply not_held_of_holders _ hi
    rw [← hinv.refs, hinv.unused slot hslot]

/-- A process forks before it has made a pipe, makes one, and closes one end of it. -/
def forkedFirst : List Monios.Model.Pipe.Action :=
  [.proc (.start none), .proc (.createChild 1), .pipeCreate true true, .pipeCloseFd 3]

def afterFork : State := Monios.Model.Pipe.apply (Monios.Model.Pipe.apply {} (.proc (.start none)))
      (.proc (.createChild 1))

/-- A child is made, then its parent opens a pipe and closes one end. -/
theorem pipeRefs_run_closed :
    RefsExact (Monios.Model.Pipe.apply (Monios.Model.Pipe.apply afterFork (.pipeCreate true true)) (.pipeCloseFd 3)) := by
  refine pipeRefs_run forkedFirst _ (.cons ⟨fun _ hfull => ?_, trivial⟩ rfl
    (.cons ⟨fun _ hfull => ?_, fun _ i hused _ => ?_⟩ rfl (.cons ?_ rfl (.cons trivial rfl (.nil _)))))
  · exact absurd (hfull 0).symm Bool.true_eq_false.mp
  · exact absurd (hfull 1) (by decide)
  · -- the only process holds the descriptors that every process starts with
    have hone : ∀ i, ((Monios.Model.Pipe.apply {} (.proc (.start none))).table.pcbs i).used = true → i = 0 := by decide
    rw [hone i hused]
    unfold NoPipes
    decide
  · intro i hi
    have hcurrent : pcbGetCurrent afterFork.table = some 0 := by decide
    obtain rfl := Option.some.inj (hcurrent.symm.trans hi)
    rfl

/-- A child that inherits a pipe makes the counts too low. -/
theorem not_refsExact_fork :
    ¬ RefsExact (Monios.Model.Pipe.apply (Monios.Model.Pipe.apply (Monios.Model.Pipe.apply {} (.proc (.start none)))
      (.pipeCreate true true)) (.proc (.createChild 1))) := by
  intro h
  have hread := (h.inUse 0 (by decide +kernel)).1
  revert hread
  decide +kernel

end Monios.Analysis
