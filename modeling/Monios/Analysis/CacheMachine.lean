import Monios.Analysis.CacheDurability

/-!
# What the cache does to the machine

Whatever the slots hold, a read through the cache changes the machine behind it only by calls of the
loader and of the flushers, and an invalidation only by calls of the flushers.
-/

set_option autoImplicit false

namespace Monios.Analysis.FsCache

open Monios.Library Monios.Model.FsCache
open Monios.Library.Traced (Emits)

variable {σ : Type} {fl : Flushers σ} {loader : Loader σ} {J : Cache σ → Prop}

structure KeptByFlushers (fl : Flushers σ) (J : Cache σ → Prop) : Prop where
  book : ∀ c c', J c → c'.machine = c.machine → J c'
  flush : ∀ c flusher path offset data, J c → J { c with machine := (fl flusher path offset data c.machine).2 }

def KeptByLoader (loader : Loader σ) (J : Cache σ → Prop) : Prop :=
  ∀ c path offset size, J c → J { c with machine := (loader path offset size c.machine).2.2 }

abbrev KeptBy {α : Type} (J : Cache σ → Prop) (m : Cached σ α) : Prop := Emits J (fun _ => True) m

theorem KeptByFlushers.modifies (h : KeptByFlushers fl J) {g : Cache σ → Cache σ}
    (hg : ∀ c, (g c).machine = c.machine) :
    KeptBy J (Traced.modifies g) := Emits.modifies fun c hc => h.book c (g c) hc (hg c)

theorem KeptByFlushers.callFlusher (h : KeptByFlushers fl J) (flusher : Nat) (path : Path)
    (offset : Nat) (data : List UInt8) :
    KeptBy J (Model.FsCache.callFlusher fl flusher path offset data) := by
  unfold Model.FsCache.callFlusher
  refine Emits.bind (Emits.reads _) fun done => Emits.bind (Emits.modifies fun c hc => ?_) fun _ =>
    ?_
  · exact h.flush c flusher path offset data hc
  · exact Emits.bind (Emits.emit trivial) fun _ => Emits.pure _

theorem KeptByLoader.callLoader (h : KeptByLoader loader J) (path : Path) (offset size : Nat) :
    KeptBy J (Model.FsCache.callLoader loader path offset size) := by
  intro c hc
  exact ⟨h c path offset size hc, fun _ _ => trivial⟩

theorem KeptByFlushers.flushSlot (h : KeptByFlushers fl J) (i : Fin defaultSlots) :
    KeptBy J (Model.FsCache.flushSlot fl i) := by
  unfold Model.FsCache.flushSlot
  refine Emits.reads_bind fun c _ => ?_
  dsimp only [id]
  split
  · exact Emits.pure _
  · refine Emits.bind (h.callFlusher _ _ _ _) fun done => Emits.ite
      (fun _ => Emits.pure _) fun _ => ?_
    exact Emits.bind (h.modifies fun _ => rfl) fun _ => Emits.pure _

theorem KeptByFlushers.chooseSlot (h : KeptByFlushers fl J) :
    KeptBy J (Model.FsCache.chooseSlot fl) := by
  unfold Model.FsCache.chooseSlot
  refine Emits.reads_bind fun c _ => ?_
  dsimp only [id]
  split
  · exact Emits.pure _
  · refine Emits.ite (fun _ => ?_) fun _ => Emits.pure _
    exact Emits.bind (h.flushSlot _) fun _ => Emits.pure _

theorem KeptByFlushers.fillSlot (h : KeptByFlushers fl J) (hload : KeptByLoader loader J)
    (path : Path) (blockStart current want : Nat) (bytes : List UInt8) :
    KeptBy J (Model.FsCache.fillSlot fl loader path blockStart current want bytes) := by
  unfold Model.FsCache.fillSlot
  refine Emits.reads_bind fun c _ => ?_
  split
  · exact Emits.pure _
  refine Emits.bind h.chooseSlot fun chosen => ?_
  cases chosen with
  | none => exact Emits.pure _
  | some i =>
    refine Emits.bind (h.modifies fun _ => rfl) fun _ => Emits.bind
      (hload.callLoader _ _ _) fun r => ?_
    refine Emits.ite (fun _ => Emits.pure _) fun _ => Emits.ite (fun _ => Emits.pure _) fun _ => ?_
    refine Emits.bind (h.modifies fun _ => rfl) fun _ => Emits.ite (fun _ => ?_) fun _ =>
      Emits.pure _
    refine Emits.bind (h.modifies fun _ => rfl) fun _ => Emits.ite (fun _ => Emits.pure _) fun _ =>
      ?_
    exact Emits.bind (hload.callLoader _ _ _) fun _ => Emits.pure _

theorem KeptByFlushers.copyFromSlot (h : KeptByFlushers fl J) (i : Fin defaultSlots)
    (offset size : Nat) :
    KeptBy J (Model.FsCache.copyFromSlot i offset size) := by
  unfold Model.FsCache.copyFromSlot
  refine Emits.reads_bind fun c _ => Emits.ite (fun _ => Emits.pure _) fun _ => ?_
  refine Emits.ite (fun _ => Emits.pure _) fun _ => ?_
  exact Emits.bind (h.modifies fun _ => rfl) fun _ => Emits.pure _

theorem KeptByFlushers.readFrom (h : KeptByFlushers fl J) (hload : KeptByLoader loader J)
    (path : Path) (offset size : Nat) (rounds : Nat) (bytes : List UInt8) :
    KeptBy J (Model.FsCache.readFrom fl loader path offset size rounds bytes) := by
  induction rounds generalizing bytes with
  | zero => exact Emits.pure _
  | succ rounds ih =>
    refine Emits.ite (fun _ => Emits.pure _) fun _ => ?_
    unfold Model.FsCache.readRound
    refine Emits.bind (h.fillSlot hload _ _ _ _ _) fun filled => ?_
    cases filled with
    | stop result bytes => exact Emits.pure _
    | slot i =>
      refine Emits.reads_bind fun c _ => Emits.ite (fun _ => Emits.pure _) fun _ => ?_
      refine Emits.bind (h.copyFromSlot _ _ _) fun part => ?_
      cases part with
      | some part => exact ih _
      | none =>
        refine Emits.bind (hload.callLoader _ _ _) fun r => Emits.ite
          (fun _ => Emits.pure _) fun _ => ?_
        exact Emits.ite (fun _ => Emits.pure _) fun _ => ih _

theorem KeptByFlushers.fsCacheReadAt (h : KeptByFlushers fl J) (hload : KeptByLoader loader J)
    (path : Option Path) (offset : UInt32) (buffer : Bool) (size : UInt32) :
    KeptBy J (Model.FsCache.fsCacheReadAt fl path offset buffer size (some loader)) := by
  unfold Model.FsCache.fsCacheReadAt
  refine Emits.ite (fun _ => Emits.pure _) fun _ => ?_
  cases path with
  | none => exact Emits.pure _
  | some path =>
    refine Emits.ite (fun _ => Emits.pure _) fun _ => Emits.ite (fun _ => Emits.pure _) fun _ => ?_
    refine Emits.reads_bind fun c _ => Emits.ite (fun _ => ?_) fun _ => ?_
    · exact Emits.bind (hload.callLoader _ _ _) fun _ => Emits.pure _
    · exact h.readFrom hload _ _ _ _ _

theorem KeptByFlushers.invalidateAll (h : KeptByFlushers fl J) (path : Option Path)
    (is : List (Fin defaultSlots)) :
    KeptBy J (Model.FsCache.invalidateAll fl path is) := by
  induction is with
  | nil => exact Emits.pure _
  | cons i is ih =>
    refine Emits.reads_bind fun c _ => Emits.ite (fun _ => ?_) fun _ => ih
    refine Emits.bind (Emits.ite (fun _ => h.flushSlot i) fun _ => Emits.pure _) fun ok =>
      Emits.ite (fun _ => ?_) fun _ => ih
    exact Emits.bind (h.modifies fun _ => rfl) fun _ => ih

theorem KeptByFlushers.fsCacheInvalidatePath (h : KeptByFlushers fl J) (path : Option Path) :
    KeptBy J (Model.FsCache.fsCacheInvalidatePath fl path) :=
  Emits.reads_bind fun _ _ => h.invalidateAll path _

end Monios.Analysis.FsCache
