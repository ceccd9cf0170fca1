import Monios.Analysis.FatOperations
import Monios.Analysis.FatReads
import Monios.Model.Fat32.Chkdsk

/-!
# The FAT cache and the copies of the FAT

On a mounted volume `fat32_get_fat_entry` returns what stands in the first FAT, and the copies of
the FAT hold the same entries (`Coherent`). Every call that writes the FAT with
`fat32_set_fat_entry` keeps this.
-/

set_option autoImplicit false

namespace Monios.Analysis

open Monios.Library Monios.Model

variable {b s s' t : Fat32} {fuel : Nat} {path : List UInt8}

structure Coherent (b s : Fat32) : Prop where
  work : AtWork b s
  agree : CopiesAgree b s.disk
  ready : s.ready = true
  slot : s.appendOpen = true → SlotInside b s.appendSlot
  previous : s.appendOpen = true → s.appendPrevCluster = 0 ∨ fat32InRange b s.appendPrevCluster = true

namespace Coherent

theorem changes (h : Coherent b s) (hc : Changes b s t) : Coherent b t := by
  have hwork := hc.work
  have hagree := hc.mirrored h.agree
  obtain ⟨disk, trace, cache, next, seq, rfl⟩ := hc.rest
  exact ⟨hwork, hagree, h.ready, h.slot, h.previous⟩

theorem looks (h : Coherent b s) (hl : Looks b s t) : Coherent b t := h.changes hl.changes

theorem withReadCache (h : Coherent b s) (path : List UInt8) (valid : Bool)
    (start index cluster : Nat) :
    Coherent b { s with
      readCachePath := path
      readCacheValid := valid
      readCacheStartCluster := start
      readCacheClusterIndex := index
      readCacheCluster := cluster } :=
  ⟨⟨h.work.bpb, h.work.fatLba, h.work.dataLba, h.work.clusterCount, h.work.walOn, h.work.walLogLba, h.work.walMax,
    h.work.cache⟩, h.agree, h.ready, h.slot, h.previous⟩

theorem clearReadCache (h : Coherent b s) : Coherent b (fat32ClearReadCache s) :=
  h.withReadCache _ _ _ _ _

theorem performed (h : Coherent b s) (hp : Performed b s t) : Coherent b t :=
  hp.elim h.looks h.clearReadCache.changes

end Coherent

end Monios.Analysis
