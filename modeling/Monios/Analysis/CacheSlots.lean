import Monios.Library.Bitmap
import Monios.Model.FsCache

/-!
# Slots of the file cache

The invariant of the slots of the file cache, and what the operations on slots do, whatever the
flushers return. A slot loses its data only after a flusher has taken all of it.
-/

set_option autoImplicit false

namespace Monios.Analysis.FsCache

open Monios.Library Monios.Library.Bitmap Monios.Model.FsCache

variable {σ : Type}

/-- The slots are consistent: `dirty_count` counts the dirty slots, which are valid and full; no two
valid slots are for the same block; valid slots are among the active ones and hold one block at
most, and there is none when the cache is disabled. -/
structure SlotsOk (s : Cache σ) : Prop where
  count : s.dirtyCount = popcount fun i => (s.slots i).dirty
  valid : ∀ i, (s.slots i).dirty = true → (s.slots i).valid = true
  full : ∀ i, (s.slots i).dirty = true → (s.slots i).dataSize = blockSize ∧ (s.slots i).data.length = blockSize
  bounded : ∀ i, (s.slots i).valid = true → (s.slots i).dataSize ≤ blockSize
  active : ∀ i, (s.slots i).valid = true → i.val < activeSlots s
  unique : ∀ i j, (s.slots i).valid = true → (s.slots j).valid = true → (s.slots i).path = (s.slots j).path →
    (s.slots i).blockStart = (s.slots j).blockStart → i = j
  enabled : s.enabled = false → ∀ i, (s.slots i).valid = false

structure Block where
  flusher : Nat
  data : List UInt8
deriving DecidableEq

def Held (s : Cache σ) (path : Path) (start : Nat) (b : Block) : Prop :=
  ∃ i, (s.slots i).valid = true ∧ (s.slots i).dirty = true ∧ (s.slots i).path = path ∧ (s.slots i).blockStart = start ∧
    (s.slots i).dataSize = blockSize ∧ (s.slots i).flusher = some b.flusher ∧ (s.slots i).data = b.data

def confirms (path : Path) (start : Nat) (b : Block) (e : FlusherCall) : Bool :=
  decide (e.flusher = b.flusher ∧ e.path = path ∧ e.offset ≤ start ∧ (start : Int) + blockSize ≤ e.offset + e.done ∧
    (e.data.drop (start - e.offset)).take blockSize = b.data)

def Keeps (s : Cache σ) (log : List FlusherCall) (s' : Cache σ) : Prop :=
  ∀ path start b, Held s path start b → Held s' path start b ∨ log.any (confirms path start b) = true

/-- Nothing is lost by doing nothing. -/
theorem Keeps.refl (s : Cache σ) (log : List FlusherCall) : Keeps s log s := fun _ _ _ h => Or.inl h

/-- Losing nothing is transitive. -/
theorem Keeps.trans {s s' s'' : Cache σ} {log log' : List FlusherCall} (h : Keeps s log s')
    (h' : Keeps s' log' s'') :
    Keeps s (log ++ log') s'' := by
  intro path start b hheld
  rw [List.any_append, Bool.or_eq_true]
  rcases h path start b hheld with hheld | hlog
  · rcases h' path start b hheld with hheld | hlog
    · exact Or.inl hheld
    · exact Or.inr (Or.inr hlog)
  · exact Or.inr (Or.inl hlog)

def Absent (s : Cache σ) (path : Path) (block : Nat) : Prop :=
  ∀ i, (s.slots i).valid = true → (s.slots i).path = path → (s.slots i).blockStart ≠ block

structure SameKeys (s s' : Cache σ) : Prop where
  enabled : s'.enabled = s.enabled
  configured : s'.configuredSlots = s.configuredSlots
  valid : ∀ i, (s'.slots i).valid = (s.slots i).valid
  path : ∀ i, (s'.slots i).path = (s.slots i).path
  blockStart : ∀ i, (s'.slots i).blockStart = (s.slots i).blockStart
  dataSize : ∀ i, (s'.slots i).dataSize = (s.slots i).dataSize
  data : ∀ i, (s'.slots i).data = (s.slots i).data

/-- A cache has its own keys. -/
theorem SameKeys.refl (s : Cache σ) : SameKeys s s :=
  ⟨rfl, rfl, fun _ => rfl, fun _ => rfl, fun _ => rfl, fun _ => rfl, fun _ => rfl⟩

/-- The number of active slots is that of the setting. -/
theorem activeSlots_congr {s s' : Cache σ} (h : s'.configuredSlots = s.configuredSlots) :
    activeSlots s' = activeSlots s := by
  unfold activeSlots
  rw [h]

/-- There is an active slot. -/
theorem activeSlots_pos (s : Cache σ) : 0 < activeSlots s := by
  unfold activeSlots
  dsimp only
  generalize (if s.configuredSlots = 0 then defaultSlots else s.configuredSlots) = n
  generalize (if n > defaultSlots then defaultSlots else n) = m
  split
  · omega
  · omega

variable {i : Fin defaultSlots}

/-- The active slots are the first ones. -/
theorem mem_activeList {s : Cache σ} : i ∈ activeList s ↔ i.val < activeSlots s := by
  unfold activeList
  rw [List.mem_filter, decide_eq_true_eq]
  exact and_iff_right (List.mem_finRange i)

/-- The slot that is found has the key. -/
theorem find_some {s : Cache σ} {path : Path} {block : Nat} (h : find path block s = some i) :
    (s.slots i).valid = true ∧ (s.slots i).path = path ∧ (s.slots i).blockStart = block ∧
      i.val < activeSlots s := by
  unfold find at h
  have hspec := List.find?_some h
  have hmem := mem_activeList.mp (List.mem_of_find?_eq_some h)
  rw [Bool.and_eq_true, Bool.and_eq_true, decide_eq_true_eq, decide_eq_true_eq] at hspec
  exact ⟨hspec.1.1, hspec.2, hspec.1.2, hmem⟩

/-- Where none is found the key is absent. -/
theorem find_none {s : Cache σ} {path : Path} {block : Nat} (hok : SlotsOk s)
    (h : find path block s = none) :
    Absent s path block := by
  unfold find at h
  rw [List.find?_eq_none] at h
  intro i hvalid hpath hblock
  apply h i (mem_activeList.mpr (hok.active i hvalid))
  rw [hvalid, hpath, hblock]
  simp

/-- The slot that is set is read back. -/
theorem setSlot_self (s : Cache σ) (i : Fin defaultSlots) (slot : Slot) :
    (s.setSlot i slot).slots i = slot :=
  Function.update_self _ _ _

/-- The other slots stay. -/
theorem setSlot_ne (s : Cache σ) {i j : Fin defaultSlots} (slot : Slot) (h : j ≠ i) :
    (s.setSlot i slot).slots j = s.slots j := Function.update_of_ne h _ _

/-- A clean slot in place of a clean one keeps the invariant. -/
theorem SlotsOk.setClean {s : Cache σ} (h : SlotsOk s) {slot : Slot}
    (hold : (s.slots i).dirty = false) (hnew : slot.dirty = false)
    (hsize : slot.valid = true → slot.dataSize ≤ blockSize)
    (hi : slot.valid = true → i.val < activeSlots s) (habsent : slot.valid = true → ∀ j, j ≠ i →
      (s.slots j).valid = true → (s.slots j).path = slot.path →
      (s.slots j).blockStart ≠ slot.blockStart)
    (henabled : s.enabled = false → slot.valid = false) : SlotsOk (s.setSlot i slot) := by
  have hdirty (j : Fin defaultSlots) : ((s.setSlot i slot).slots j).dirty = (s.slots j).dirty := by
    by_cases hj : j = i
    · rw [hj, setSlot_self, hnew, hold]
    · rw [setSlot_ne s slot hj]
  have hother {j : Fin defaultSlots} (hj : ((s.setSlot i slot).slots j).dirty = true) :
      (s.setSlot i slot).slots j = s.slots j := by
    apply setSlot_ne
    rintro rfl
    rw [setSlot_self, hnew] at hj
    cases hj
  refine ⟨?_, fun j hj => ?_, fun j hj => ?_, fun j hj => ?_, fun j hj => ?_,
    fun j k hj hk hpath hblock => ?_,
    fun hen j => ?_⟩
  · change s.dirtyCount = _
    rw [h.count]
    congr 1
    funext j
    exact (hdirty j).symm
  · have hsame := hother hj
    rw [hsame] at hj ⊢
    exact h.valid j hj
  · have hsame := hother hj
    rw [hsame] at hj ⊢
    exact h.full j hj
  · by_cases hji : j = i
    · rw [hji, setSlot_self] at hj ⊢
      exact hsize hj
    · rw [setSlot_ne s slot hji] at hj ⊢
      exact h.bounded j hj
  · change j.val < activeSlots s
    by_cases hji : j = i
    · rw [hji, setSlot_self] at hj
      rw [hji]
      exact hi hj
    · rw [setSlot_ne s slot hji] at hj
      exact h.active j hj
  · by_cases hji : j = i
    · by_cases hki : k = i
      · rw [hji, hki]
      · rw [hji, setSlot_self] at hj hpath hblock
        rw [setSlot_ne s slot hki] at hk hpath hblock
        exact absurd hblock.symm (habsent hj k hki hk hpath.symm)
    · rw [setSlot_ne s slot hji] at hj hpath hblock
      by_cases hki : k = i
      · rw [hki, setSlot_self] at hk hpath hblock
        exact absurd hblock (habsent hk j hji hj hpath)
      · rw [setSlot_ne s slot hki] at hk hpath hblock
        exact h.unique j k hj hk hpath hblock
  · by_cases hji : j = i
    · rw [hji, setSlot_self]
      exact henabled hen
    · rw [setSlot_ne s slot hji]
      exact h.enabled hen j

/-- A slot in place of a clean one loses nothing. -/
theorem Keeps.setClean {s : Cache σ} (slot : Slot) (hold : (s.slots i).dirty = false)
    (log : List FlusherCall) : Keeps s log (s.setSlot i slot) := by
  rintro path start b ⟨j, hvalid, hdirty, hrest⟩
  have hji : j ≠ i := by
    rintro rfl
    rw [hold] at hdirty
    cases hdirty
  refine Or.inl ⟨j, ?_⟩
  rw [setSlot_ne s slot hji]
  exact ⟨hvalid, hdirty, hrest⟩

/-- A slot given up in place of a clean one keeps the invariant. -/
theorem SlotsOk.setInvalid {s : Cache σ} (h : SlotsOk s) {slot : Slot}
    (hold : (s.slots i).dirty = false) (hnew : slot.dirty = false) (hvalid : slot.valid = false) :
    SlotsOk (s.setSlot i slot) := by
  have hno (h : slot.valid = true) : False := by
    rw [hvalid] at h
    cases h
  exact h.setClean hold hnew (fun h => (hno h).elim) (fun h => (hno h).elim)
    (fun h => (hno h).elim) fun _ => hvalid

structure SameSlots (s t : Cache σ) : Prop where
  enabled : t.enabled = s.enabled
  configured : t.configuredSlots = s.configuredSlots
  count : t.dirtyCount = s.dirtyCount
  slots : ∀ i, ∃ age, t.slots i = { s.slots i with age := age }

/-- The age of a slot is not part of it. -/
theorem sameSlots_setAge (s : Cache σ) (i : Fin defaultSlots) (age now : Nat) :
    SameSlots s { s.setSlot i { s.slots i with age := age } with age := now } := by
  refine ⟨rfl, rfl, rfl, fun j => ?_⟩
  by_cases hji : j = i
  · exact ⟨age, by rw [hji]; exact setSlot_self s i _⟩
  · exact ⟨(s.slots j).age, setSlot_ne s _ hji⟩

/-- The invariant is one of the slots. -/
theorem SlotsOk.congr {s t : Cache σ} (h : SlotsOk s) (hst : SameSlots s t) : SlotsOk t := by
  have hactive : activeSlots t = activeSlots s := activeSlots_congr hst.configured
  have hkey (i : Fin defaultSlots) : (t.slots i).valid = (s.slots i).valid ∧ (t.slots i).dirty = (s.slots i).dirty ∧
      (t.slots i).path = (s.slots i).path ∧ (t.slots i).blockStart = (s.slots i).blockStart ∧
      (t.slots i).dataSize = (s.slots i).dataSize ∧ (t.slots i).data = (s.slots i).data := by
    obtain ⟨age, hage⟩ := hst.slots i
    rw [hage]
    exact ⟨rfl, rfl, rfl, rfl, rfl, rfl⟩
  refine ⟨?_, fun j hj => ?_, fun j hj => ?_, fun j hj => ?_, fun j hj => ?_,
    fun j k hj hk hpath hblock => ?_,
    fun hen j => ?_⟩
  · rw [hst.count, h.count]
    congr 1
    funext j
    exact (hkey j).2.1.symm
  · rw [(hkey j).2.1] at hj
    rw [(hkey j).1]
    exact h.valid j hj
  · rw [(hkey j).2.1] at hj
    rw [(hkey j).2.2.2.2.1, (hkey j).2.2.2.2.2]
    exact h.full j hj
  · rw [(hkey j).1] at hj
    rw [(hkey j).2.2.2.2.1]
    exact h.bounded j hj
  · rw [(hkey j).1] at hj
    rw [hactive]
    exact h.active j hj
  · rw [(hkey j).1] at hj
    rw [(hkey k).1] at hk
    rw [(hkey j).2.2.1, (hkey k).2.2.1] at hpath
    rw [(hkey j).2.2.2.1, (hkey k).2.2.2.1] at hblock
    exact h.unique j k hj hk hpath hblock
  · rw [(hkey j).1]
    rw [hst.enabled] at hen
    exact h.enabled hen j

/-- What is held is held by the slots. -/
theorem Held.congr {s t : Cache σ} (hst : SameSlots s t) {path : Path} {start : Nat} {b : Block}
    (h : Held s path start b) :
    Held t path start b := by
  obtain ⟨i, hi⟩ := h
  obtain ⟨age, hage⟩ := hst.slots i
  refine ⟨i, ?_⟩
  rw [hage]
  exact hi

/-- The clock does not matter to the invariant. -/
theorem SlotsOk.clock {s : Cache σ} (h : SlotsOk s) (now : Nat) : SlotsOk { s with age := now } :=
  ⟨h.count, h.valid, h.full, h.bounded, h.active, h.unique, h.enabled⟩

/-- The machine does not matter to the invariant. -/
theorem SlotsOk.machine {s : Cache σ} (h : SlotsOk s) (m : σ) : SlotsOk { s with machine := m } :=
  ⟨h.count, h.valid, h.full, h.bounded, h.active, h.unique, h.enabled⟩

/-- A slot marked as flushed keeps the invariant. -/
theorem SlotsOk.markFlushed {s : Cache σ} (h : SlotsOk s) (hi : (s.slots i).dirty = true) :
    SlotsOk (markFlushed i s) := by
  have hslot (j : Fin defaultSlots) :
      (Monios.Model.FsCache.markFlushed i s).slots j = if j = i then { s.slots i with dirty := false } else s.slots j :=
    Function.update_apply _ _ _ _
  have hdirty (j : Fin defaultSlots) (hj : ((Monios.Model.FsCache.markFlushed i s).slots j).dirty = true) :
      (Monios.Model.FsCache.markFlushed i s).slots j = s.slots j := by
    rw [hslot] at hj ⊢
    split at hj
    · cases hj
    · next hji => rw [if_neg hji]
  have hkey (j : Fin defaultSlots) : ((Monios.Model.FsCache.markFlushed i s).slots j).valid = (s.slots j).valid ∧
      ((Monios.Model.FsCache.markFlushed i s).slots j).path = (s.slots j).path ∧
      ((Monios.Model.FsCache.markFlushed i s).slots j).blockStart = (s.slots j).blockStart ∧
      ((Monios.Model.FsCache.markFlushed i s).slots j).dataSize = (s.slots j).dataSize := by
    rw [hslot]
    split
    · next hji =>
      rw [hji]
      exact ⟨rfl, rfl, rfl, rfl⟩
    · exact ⟨rfl, rfl, rfl, rfl⟩
  refine ⟨?_, fun j hj => ?_, fun j hj => ?_, fun j hj => ?_, fun j hj => ?_,
    fun j k hj hk hpath hblock => ?_,
    fun hen j => ?_⟩
  · have hpos := popcount_pos (f := fun i => (s.slots i).dirty) hi
    have hclear := popcount_clear (f := fun i => (s.slots i).dirty) hi
    have hcount : (Monios.Model.FsCache.markFlushed i s).dirtyCount = s.dirtyCount - 1 := by
      rw [← h.count] at hpos
      exact if_pos hpos
    rw [hcount, h.count, ← hclear, Nat.add_sub_cancel]
    congr 1
    funext j
    rw [hslot, Function.update_apply]
    split
    · rfl
    · rfl
  · rw [(hkey j).1]
    apply h.valid j
    rw [← hdirty j hj]
    exact hj
  · have hsame := hdirty j hj
    rw [hsame] at hj ⊢
    exact h.full j hj
  · rw [(hkey j).1] at hj
    rw [(hkey j).2.2.2]
    exact h.bounded j hj
  · rw [(hkey j).1] at hj
    exact h.active j hj
  · rw [(hkey j).1] at hj
    rw [(hkey k).1] at hk
    rw [(hkey j).2.1, (hkey k).2.1] at hpath
    rw [(hkey j).2.2.1, (hkey k).2.2.1] at hblock
    exact h.unique j k hj hk hpath hblock
  · rw [(hkey j).1]
    exact h.enabled hen j

/-- A slot marked as flushed keeps its key. -/
theorem sameKeys_markFlushed (i : Fin defaultSlots) (s : Cache σ) (m : σ) :
    SameKeys s (markFlushed i { s with machine := m }) := by
  have hslot (j : Fin defaultSlots) : (markFlushed i { s with machine := m }).slots j =
      if j = i then { s.slots i with dirty := false } else s.slots j := Function.update_apply _ _ _ _
  refine ⟨rfl, rfl, fun j => ?_, fun j => ?_, fun j => ?_, fun j => ?_, fun j => ?_⟩
  all_goals
    rw [hslot]
    split
    · next hji => rw [hji]
    · rfl

section

variable (fl : Flushers σ) (i : Fin defaultSlots) (s : Cache σ)

def slotFlusher : Option Nat := (s.slots i).flusher.or s.flusher

def slotAnswer (flusher : Nat) : Int × σ :=
  fl flusher (s.slots i).path (s.slots i).blockStart ((s.slots i).data.take (s.slots i).dataSize) s.machine

def slotCall (flusher : Nat) : FlusherCall :=
  ⟨flusher, (s.slots i).path, (s.slots i).blockStart, (s.slots i).data.take (s.slots i).dataSize, (slotAnswer fl i s flusher).1⟩

variable {fl i s}

/-- What a call of a flusher does and logs. -/
theorem callFlusher_eq (flusher : Nat) (path : Path) (offset : Nat) (data : List UInt8) :
    callFlusher fl flusher path offset data s =
      ((fl flusher path offset data s.machine).1, { s with machine := (fl flusher path offset data s.machine).2 },
        [⟨flusher, path, offset, data, (fl flusher path offset data s.machine).1⟩]) := rfl

/-- A slot without a flusher is not flushed. -/
theorem flushSlot_none (h : slotFlusher i s = none) : flushSlot fl i s = (false, s, []) := by
  unfold slotFlusher at h
  unfold flushSlot
  rw [Traced.reads_bind, id, h]
  rfl

/-- A flusher that fails leaves the slot dirty. -/
theorem flushSlot_fail {flusher : Nat} (h : slotFlusher i s = some flusher)
    (hfail : (slotAnswer fl i s flusher).1 < 0 ∨
      (slotAnswer fl i s flusher).1 ≠ (s.slots i).dataSize) :
    flushSlot fl i s = (false, { s with machine := (slotAnswer fl i s flusher).2 }, [slotCall fl i s flusher]) := by
  unfold slotFlusher at h
  unfold flushSlot
  rw [Traced.reads_bind, id, h]
  dsimp only
  rw [Traced.bind_of_eq s (callFlusher_eq flusher _ _ _)]
  unfold slotAnswer at hfail
  rw [if_pos hfail]
  rfl

/-- A flusher that takes all leaves the slot clean. -/
theorem flushSlot_ok {flusher : Nat} (h : slotFlusher i s = some flusher)
    (hok : ¬ ((slotAnswer fl i s flusher).1 < 0 ∨
      (slotAnswer fl i s flusher).1 ≠ (s.slots i).dataSize)) :
    flushSlot fl i s =
      (true, markFlushed i { s with machine := (slotAnswer fl i s flusher).2 }, [slotCall fl i s flusher]) := by
  unfold slotFlusher at h
  unfold flushSlot
  rw [Traced.reads_bind, id, h]
  dsimp only
  rw [Traced.bind_of_eq s (callFlusher_eq flusher _ _ _)]
  unfold slotAnswer at hok
  rw [if_neg hok]
  rfl

/-- What flushing a dirty slot can do. -/
theorem flushSlot_cases (fl : Flushers σ) (hok : SlotsOk s) (hi : (s.slots i).dirty = true) :
    (∃ m log, flushSlot fl i s = (false, { s with machine := m }, log)) ∨
      ∃ m log, flushSlot fl i s = (true, markFlushed i { s with machine := m }, log) ∧
        ∀ f, (s.slots i).flusher = some f →
          log.any (confirms (s.slots i).path (s.slots i).blockStart ⟨f, (s.slots i).data⟩) = true := by
  cases hfl : slotFlusher i s with
  | none => exact Or.inl ⟨s.machine, [], flushSlot_none hfl⟩
  | some flusher =>
    by_cases hfail : (slotAnswer fl i s flusher).1 < 0 ∨ (slotAnswer fl i s flusher).1 ≠ (s.slots i).dataSize
    · exact Or.inl ⟨_, _, flushSlot_fail hfl hfail⟩
    · refine Or.inr ⟨_, _, flushSlot_ok hfl hfail, fun f hf => ?_⟩
      obtain ⟨hsize, hlen⟩ := hok.full i hi
      have htake : (s.slots i).data.take (s.slots i).dataSize = (s.slots i).data := by
        rw [hsize, ← hlen, List.take_length]
      have hflusher : flusher = f := by
        unfold slotFlusher at hfl
        rw [hf, Option.some_or, Option.some.injEq] at hfl
        exact hfl.symm
      rw [List.any_cons, List.any_nil, Bool.or_false]
      unfold confirms slotCall
      rw [decide_eq_true_eq]
      dsimp only
      refine ⟨hflusher, rfl, Nat.le_refl _, ?_, ?_⟩
      · rw [not_not.mp (not_or.mp hfail).2, hsize]
      · rw [htake, Nat.sub_self, List.drop_zero, ← hlen, List.take_length]

/-- A slot that the log confirms may be marked. -/
theorem Keeps.markFlushed {m : σ} {log : List FlusherCall}
    (hlog : ∀ f, (s.slots i).flusher = some f →
      log.any (confirms (s.slots i).path (s.slots i).blockStart ⟨f, (s.slots i).data⟩) = true) :
    Keeps s log (markFlushed i { s with machine := m }) := by
  rintro path start ⟨f, data⟩ ⟨j, hvalid, hdirty, hpath, hblock, hsize, hflusher, hdata⟩
  by_cases hji : j = i
  · subst hji
    right
    have hany := hlog f hflusher
    rw [hpath, hblock, hdata] at hany
    exact hany
  · have hsame : (Monios.Model.FsCache.markFlushed i { s with machine := m }).slots j = s.slots j :=
      Function.update_of_ne hji _ _
    refine Or.inl ⟨j, ?_⟩
    rw [hsame]
    exact ⟨hvalid, hdirty, hpath, hblock, hsize, hflusher, hdata⟩

/-- Flushing keeps the invariant and the keys, and loses nothing. -/
theorem flushSlot_ends (fl : Flushers σ) (hok : SlotsOk s) (hi : (s.slots i).dirty = true) :
    Traced.Ends Keeps (fun ok t => SlotsOk t ∧ SameKeys s t ∧
      (ok = true → (t.slots i).dirty = false)) (flushSlot fl i) s := by
  rcases flushSlot_cases fl hok hi with ⟨m, log, heq⟩ | ⟨m, log, heq, hlog⟩
  · apply Traced.Ends.of_eq heq
    · exact fun path start b h => Or.inl h
    · exact ⟨hok.machine m, ⟨rfl, rfl, fun _ => rfl, fun _ => rfl, fun _ => rfl, fun _ => rfl, fun _ => rfl⟩,
        fun h => absurd h Bool.false_ne_true⟩
  · apply Traced.Ends.of_eq heq
    · exact Keeps.markFlushed hlog
    · refine ⟨(hok.machine m).markFlushed hi, sameKeys_markFlushed i s m, fun _ => ?_⟩
      have hslot : (markFlushed i { s with machine := m }).slots i =
          { s.slots i with dirty := false } :=
        Function.update_self _ _ _
      rw [hslot]

end

/-- The oldest slot is active. -/
theorem oldestSlot_active (s : Cache σ) : (oldestSlot s).val < activeSlots s := by
  have hfold (is : List (Fin defaultSlots)) (his : ∀ i ∈ is, i.val < activeSlots s) (i₀ : Fin defaultSlots)
      (h₀ : i₀.val < activeSlots s) :
      (is.foldl (fun oldest i => if (s.slots i).age < (s.slots oldest).age then i else oldest) i₀).val <
        activeSlots s := by
    induction is generalizing i₀ with
    | nil => exact h₀
    | cons i is ih =>
      rw [List.foldl_cons]
      apply ih fun j hj => his j (List.mem_cons_of_mem i hj)
      split
      · exact his i List.mem_cons_self
      · exact h₀
  exact hfold _ (fun i hi => mem_activeList.mp hi) _ (activeSlots_pos s)

/-- The slot that is chosen is clean, or has been flushed, or there is none. -/
theorem chooseSlot_cases (fl : Flushers σ) {s : Cache σ} (hok : SlotsOk s) :
    ∃ i, i.val < activeSlots s ∧
      (((s.slots i).dirty = false ∧ chooseSlot fl s = (some i, s, [])) ∨
        ((s.slots i).dirty = true ∧ chooseSlot fl s =
          (if (flushSlot fl i).result s then some i else none, (flushSlot fl i).state s, (flushSlot fl i).log s))) := by
  cases hfind : (activeList s).find? fun i => !(s.slots i).valid with
  | some i =>
    refine ⟨i, mem_activeList.mp (List.mem_of_find?_eq_some hfind), Or.inl ⟨?_, ?_⟩⟩
    · have hinvalid := List.find?_some hfind
      rw [Bool.not_eq_true'] at hinvalid
      by_contra hdirty
      rw [Bool.not_eq_false] at hdirty
      rw [hok.valid i hdirty] at hinvalid
      cases hinvalid
    · unfold chooseSlot
      rw [Traced.reads_bind, id, hfind]
      rfl
  | none =>
    refine ⟨oldestSlot s, oldestSlot_active s, ?_⟩
    cases hdirty : (s.slots (oldestSlot s)).dirty with
    | false =>
      refine Or.inl ⟨rfl, ?_⟩
      unfold chooseSlot
      rw [Traced.reads_bind, id, hfind]
      dsimp only
      rw [hdirty, if_neg Bool.false_ne_true]
      rfl
    | true =>
      refine Or.inr ⟨rfl, ?_⟩
      unfold chooseSlot
      rw [Traced.reads_bind, id, hfind]
      dsimp only
      rw [hdirty, if_pos rfl, Traced.bind_of_eq s (m := flushSlot fl (oldestSlot s)) rfl]
      exact congrArg (fun l => (_, _, l)) (List.append_nil _)

/-- Choosing a slot keeps the invariant and the keys, and loses nothing. -/
theorem chooseSlot_ends (fl : Flushers σ) {s : Cache σ} (hok : SlotsOk s) :
    Traced.Ends Keeps (fun chosen t => SlotsOk t ∧ SameKeys s t ∧
      ∀ i, chosen = some i → (t.slots i).dirty = false ∧
      i.val < activeSlots t) (chooseSlot fl) s := by
  obtain ⟨i, hactive, ⟨hdirty, heq⟩ | ⟨hdirty, heq⟩⟩ := chooseSlot_cases fl hok
  · apply Traced.Ends.of_eq heq (Keeps.refl s [])
    refine ⟨hok, SameKeys.refl s, ?_⟩
    rintro _ ⟨rfl⟩
    exact ⟨hdirty, hactive⟩
  · obtain ⟨hkeeps, hok', hkeys, hclean⟩ := flushSlot_ends fl hok hdirty
    apply Traced.Ends.of_eq heq hkeeps
    refine ⟨hok', hkeys, fun j hj => ?_⟩
    split at hj
    · next hflushed =>
      obtain rfl : i = j := Option.some.inj hj
      refine ⟨hclean hflushed, ?_⟩
      rw [activeSlots_congr hkeys.configured]
      exact hactive
    · cases hj

end Monios.Analysis.FsCache
