import Monios.Analysis.CacheDurability

/-!
# The file cache over a disk of files

What the file cache shows of the files, where the loaders and flushers read and write the files
themselves. `Shows` relates the cache to the files as they are after all writes: a valid slot holds
the bytes of its block, and where no slot is dirty, the files behind the cache have the bytes.
-/

set_option autoImplicit false

namespace Monios.Analysis.FsCache

open Monios.Library Monios.Library.FileBytes Monios.Model.FsCache

abbrev Files := Path → List UInt8

def fileFlusher : Flushers Files := fun _ path offset data files =>
  (int32 data.length, Function.update files path (writeAt (files path) offset data))

def fileLoader : Loader Files := fun path offset size files =>
  (int32 (readAt (files path) offset size).length, readAt (files path) offset size, files)

variable {s t : Cache Files} {i : Fin defaultSlots}

def NotDirty (s : Cache Files) (path : Path) (x : Nat) : Prop :=
  ∀ i, (s.slots i).dirty = true → (s.slots i).path = path →
    ¬ ((s.slots i).blockStart ≤ x ∧ x < (s.slots i).blockStart + blockSize)

structure SlotShows (files : Files) (slot : Slot) : Prop where
  pos : 0 < slot.dataSize
  size : slot.dataSize = (readAt (files slot.path) slot.blockStart blockSize).length
  data : slot.data.take slot.dataSize = readAt (files slot.path) slot.blockStart blockSize

structure Shows (stale : Option (Fin defaultSlots)) (pending : Path → Nat → Prop) (files : Files) (s : Cache Files) :
    Prop where
  cacheable : ∀ i, (s.slots i).valid = true → pathIsCacheable (s.slots i).path = true
  aligned : ∀ i, (s.slots i).valid = true → (s.slots i).blockStart % blockSize = 0
  flusher : ∀ i, (s.slots i).dirty = true → (s.slots i).flusher ≠ none
  slot : ∀ i, stale ≠ some i → (s.slots i).valid = true → SlotShows files (s.slots i)
  zero : ∀ path x, pending path x → (files path)[x]? = some 0
  behind : ∀ path x, NotDirty s path x →
    (s.machine path)[x]? = (files path)[x]? ∨ pending path x ∧ (s.machine path)[x]? = none

def settled : Path → Nat → Prop := fun _ _ => False

variable {stale : Option (Fin defaultSlots)} {pending : Path → Nat → Prop} {files : Files}

theorem Shows.setClean (h : Shows stale pending files s) {slot : Slot}
    (hold : (s.slots i).dirty = false) (hnew : slot.dirty = false)
    (hpath : slot.valid = true → pathIsCacheable slot.path = true)
    (haligned : slot.valid = true → slot.blockStart % blockSize = 0) (hslot : stale ≠ some i →
      slot.valid = true → SlotShows files slot) : Shows stale pending files (s.setSlot i slot) := by
  refine ⟨fun j hj => ?_, fun j hj => ?_, fun j hj => ?_, fun j hstale hj => ?_, h.zero,
    fun path x hx => ?_⟩
  · by_cases hji : j = i
    · rw [hji, setSlot_self] at hj ⊢
      exact hpath hj
    · rw [setSlot_ne s slot hji] at hj ⊢
      exact h.cacheable j hj
  · by_cases hji : j = i
    · rw [hji, setSlot_self] at hj ⊢
      exact haligned hj
    · rw [setSlot_ne s slot hji] at hj ⊢
      exact h.aligned j hj
  · by_cases hji : j = i
    · rw [hji, setSlot_self, hnew] at hj
      cases hj
    · rw [setSlot_ne s slot hji] at hj ⊢
      exact h.flusher j hj
  · by_cases hji : j = i
    · rw [hji] at hstale
      rw [hji, setSlot_self] at hj ⊢
      exact hslot hstale hj
    · rw [setSlot_ne s slot hji] at hj ⊢
      exact h.slot j hstale hj
  · apply h.behind path x
    intro j hj hkey
    have hji : j ≠ i := by
      rintro rfl
      rw [hold] at hj
      cases hj
    have hsame : (s.setSlot i slot).slots j = s.slots j := setSlot_ne s slot hji
    have hxj := hx j
    rw [hsame] at hxj
    exact hxj hj hkey

theorem Shows.setInvalid (h : Shows stale pending files s) {slot : Slot}
    (hold : (s.slots i).dirty = false) (hnew : slot.dirty = false) (hvalid : slot.valid = false) :
    Shows stale pending files (s.setSlot i slot) := by
  have hno {p : Prop} (h : slot.valid = true) : p := by
    rw [hvalid] at h
    cases h
  exact h.setClean hold hnew (fun h => hno h) (fun h => hno h) fun _ h => hno h

theorem Shows.clock (h : Shows stale pending files s) (now : Nat) :
    Shows stale pending files { s with age := now } :=
  ⟨h.cacheable, h.aligned, h.flusher, h.slot, h.zero, h.behind⟩

theorem Shows.congr (h : Shows stale pending files s) (hst : SameSlots s t)
    (hmachine : t.machine = s.machine) :
    Shows stale pending files t := by
  have hkey (i : Fin defaultSlots) : (t.slots i).valid = (s.slots i).valid ∧ (t.slots i).dirty = (s.slots i).dirty ∧
      (t.slots i).path = (s.slots i).path ∧ (t.slots i).blockStart = (s.slots i).blockStart ∧
      (t.slots i).flusher = (s.slots i).flusher := by
    obtain ⟨age, hage⟩ := hst.slots i
    rw [hage]
    exact ⟨rfl, rfl, rfl, rfl, rfl⟩
  refine ⟨fun j hj => ?_, fun j hj => ?_, fun j hj => ?_, fun j hstale hj => ?_, h.zero,
    fun path x hx => ?_⟩
  · rw [(hkey j).1] at hj
    rw [(hkey j).2.2.1]
    exact h.cacheable j hj
  · rw [(hkey j).1] at hj
    rw [(hkey j).2.2.2.1]
    exact h.aligned j hj
  · rw [(hkey j).2.1] at hj
    rw [(hkey j).2.2.2.2]
    exact h.flusher j hj
  · rw [(hkey j).1] at hj
    obtain ⟨hpos, hsize, hdata⟩ := h.slot j hstale hj
    obtain ⟨age, hage⟩ := hst.slots j
    rw [hage]
    exact ⟨hpos, hsize, hdata⟩
  · rw [hmachine]
    apply h.behind path x
    intro j hj hp
    have hxj := hx j
    rw [(hkey j).2.1, (hkey j).2.2.1, (hkey j).2.2.2.1] at hxj
    exact hxj hj hp

theorem flushSlot_shows (hok : SlotsOk s) (h : Shows none pending files s)
    (hi : (s.slots i).dirty = true) :
    (flushSlot fileFlusher i).result s = true ∧
      Shows none pending files ((flushSlot fileFlusher i).state s) := by
  obtain ⟨hsize, hlen⟩ := hok.full i hi
  obtain ⟨-, hcount, hdata⟩ := h.slot i nofun (hok.valid i hi)
  have htake : (s.slots i).data.take (s.slots i).dataSize = (s.slots i).data := by
    rw [hsize, ← hlen, List.take_length]
  rw [htake] at hdata
  -- The whole block is within the file.
  have hend : (s.slots i).blockStart + blockSize ≤ (files (s.slots i).path).length := by
    rw [hsize, length_readAt] at hcount
    unfold blockSize at hcount ⊢
    omega
  obtain ⟨f, hf⟩ := Option.ne_none_iff_exists'.mp (h.flusher i hi)
  have hflusher : slotFlusher i s = some f := by
    unfold slotFlusher
    rw [hf, Option.some_or]
  have hanswer : slotAnswer fileFlusher i s f = ((blockSize : Int), Function.update s.machine (s.slots i).path
      (writeAt (s.machine (s.slots i).path) (s.slots i).blockStart (s.slots i).data)) := by
    unfold slotAnswer fileFlusher
    rw [htake, hlen, int32_of_lt (by decide)]
  have hsuccess : ¬ ((slotAnswer fileFlusher i s f).1 < 0 ∨ (slotAnswer fileFlusher i s f).1 ≠ (s.slots i).dataSize) := by
    rw [hanswer, hsize]
    unfold blockSize
    omega
  have hflush := flushSlot_ok hflusher hsuccess
  rw [hanswer] at hflush
  rw [Traced.result_of_eq hflush, Traced.state_of_eq hflush]
  refine ⟨rfl, ?_⟩
  have hslot (j : Fin defaultSlots) (m : Files) : (markFlushed i { s with machine := m }).slots j =
      if j = i then { s.slots i with dirty := false } else s.slots j := Function.update_apply _ _ _ _
  refine ⟨fun j hj => ?_, fun j hj => ?_, fun j hj => ?_, fun j hstale hj => ?_, h.zero,
    fun path x hx => ?_⟩
  · rw [hslot] at hj ⊢
    split
    · exact h.cacheable i (hok.valid i hi)
    · next hji =>
      rw [if_neg hji] at hj
      exact h.cacheable j hj
  · rw [hslot] at hj ⊢
    split
    · exact h.aligned i (hok.valid i hi)
    · next hji =>
      rw [if_neg hji] at hj
      exact h.aligned j hj
  · rw [hslot] at hj ⊢
    split at hj
    · cases hj
    · next hji =>
      rw [if_neg hji]
      exact h.flusher j hj
  · rw [hslot] at hj ⊢
    split
    · obtain ⟨hpos, hcount, hdata⟩ := h.slot i nofun (hok.valid i hi)
      exact ⟨hpos, hcount, hdata⟩
    · next hji =>
      rw [if_neg hji] at hj
      exact h.slot j hstale hj
  · change (Function.update s.machine (s.slots i).path
      (writeAt (s.machine (s.slots i).path) (s.slots i).blockStart (s.slots i).data) path)[x]? = _ ∨ _ ∧
        (Function.update s.machine (s.slots i).path
      (writeAt (s.machine (s.slots i).path) (s.slots i).blockStart (s.slots i).data) path)[x]? = _
    have hx' (hblock : ¬ (path = (s.slots i).path ∧ (s.slots i).blockStart ≤ x ∧ x < (s.slots i).blockStart + blockSize)) :
        NotDirty s path x := by
      intro j hj hp hin
      by_cases hji : j = i
      · subst hji
        exact hblock ⟨hp.symm, hin⟩
      · have hxj := hx j
        rw [hslot, if_neg hji] at hxj
        exact hxj hj hp hin
    by_cases hpath : path = (s.slots i).path
    · subst hpath
      rw [Function.update_self, getElem?_writeAt, hlen]
      by_cases hbefore : x < (s.slots i).blockStart
      · rw [if_pos hbefore]
        have hold := h.behind _ x (hx' (by omega))
        by_cases hin : x < (s.machine (s.slots i).path).length
        · rw [if_pos hin]
          exact hold
        · -- The zeros before the block: they are no longer missing.
          rw [if_neg hin]
          left
          rcases hold with hsame | ⟨hpending, -⟩
          · rw [List.getElem?_eq_none (by omega)] at hsame
            have := List.getElem?_eq_none_iff.mp hsame.symm
            omega
          · exact (h.zero _ x hpending).symm
      · rw [if_neg hbefore]
        by_cases hin : x < (s.slots i).blockStart + blockSize
        · rw [if_pos hin, hdata, getElem?_readAt, if_pos (by omega)]
          left
          congr 1
          omega
        · rw [if_neg hin]
          exact h.behind _ x (hx' (by omega))
    · rw [Function.update_of_ne hpath]
      exact h.behind path x (hx' fun hblock => hpath hblock.1)

structure Working (pending : Path → Nat → Prop) (files : Files) (s : Cache Files) : Prop where
  ok : SlotsOk s
  shows : Shows none pending files s

theorem chooseSlot_shows (h : Working pending files s) :
    (chooseSlot fileFlusher).result s ≠ none ∧
      Shows none pending files ((chooseSlot fileFlusher).state s) := by
  obtain ⟨i, -, ⟨-, heq⟩ | ⟨hdirty, heq⟩⟩ := chooseSlot_cases fileFlusher h.ok
  · rw [Traced.result_of_eq heq, Traced.state_of_eq heq]
    exact ⟨nofun, h.shows⟩
  · obtain ⟨hresult, hshows⟩ := flushSlot_shows h.ok h.shows hdirty
    rw [Traced.result_of_eq heq, Traced.state_of_eq heq, hresult]
    exact ⟨nofun, hshows⟩

def Files.write (files : Files) (path : Path) (offset : Nat) (data : List UInt8) : Files :=
  Function.update files path (writeAt (files path) offset data)

theorem Files.write_write (files : Files) (path : Path) (offset : Nat) (data data' : List UInt8) :
    (files.write path offset data).write path (offset + data.length) data' =
      files.write path offset (data ++ data') := by
  unfold Files.write
  rw [Function.update_idem, Function.update_self, writeAt_writeAt]

theorem Files.write_self (files : Files) (path : Path) (offset : Nat) (data : List UInt8) :
    files.write path offset data path = writeAt (files path) offset data :=
  Function.update_self _ _ _

theorem Files.write_ne (files : Files) {path path' : Path} (offset : Nat) (data : List UInt8)
    (h : path' ≠ path) :
    files.write path offset data path' = files path' := Function.update_of_ne h _ _

variable {path : Path} {offset start : Nat} {data : List UInt8}

theorem SlotShows.write {slot : Slot} (h : SlotShows files slot)
    (hother : slot.path = path →
      (offset + data.length ≤ slot.blockStart ∨ slot.blockStart + blockSize ≤ offset) ∧
      (offset ≤ (files path).length ∨
        slot.dataSize = blockSize)) : SlotShows (files.write path offset data) slot := by
  have hsame : readAt (files.write path offset data slot.path) slot.blockStart blockSize =
      readAt (files slot.path) slot.blockStart blockSize := by
    by_cases hpath : slot.path = path
    · obtain ⟨hdisjoint, hroom⟩ := hother hpath
      have hsize := h.size
      rw [hpath, length_readAt] at hsize
      rw [hpath, Files.write_self]
      apply List.ext_getElem?
      intro j
      rw [getElem?_readAt, getElem?_readAt]
      split
      · next hj =>
        rw [getElem?_writeAt]
        split
        · rw [if_pos (by omega)]
        · rw [if_neg (by omega)]
      · rfl
    · rw [Files.write_ne files offset data hpath]
  obtain ⟨hpos, hsize, hdata⟩ := h
  refine ⟨hpos, ?_, ?_⟩
  · rw [hsame]
    exact hsize
  · rw [hsame]
    exact hdata

theorem Shows.writeBehind (h : Shows none pending files s) (hstart : start % blockSize = 0)
    (hfrom : start ≤ offset) (hto : offset + data.length ≤ start + blockSize)
    (habsent : Absent s path start) (hpending : ∀ path' x, pending path' x → path' = path ∧
      x < offset) (hroom : offset ≤ (files path).length ∨
      ∀ i, (s.slots i).valid = true → (s.slots i).path = path → (s.slots i).dataSize = blockSize) :
    Shows none settled (files.write path offset data) { s with machine := Files.write s.machine path offset data } := by
  refine ⟨h.cacheable, h.aligned, h.flusher, fun i hstale hi => ?_,
    fun _ _ hsettled => hsettled.elim, fun path' x hx => ?_⟩
  · apply (h.slot i hstale hi).write
    intro hpath
    have halign := h.aligned i hi
    have hne := habsent i hi hpath
    refine ⟨?_, hroom.imp_right fun hsize => hsize i hi hpath⟩
    unfold blockSize at *
    omega
  · left
    have hold := h.behind path' x hx
    change (Files.write s.machine path offset data path')[x]? = _
    by_cases hpath : path' = path
    · subst hpath
      rw [Files.write_self, Files.write_self, getElem?_writeAt, getElem?_writeAt]
      by_cases hbefore : x < offset
      · rw [if_pos hbefore, if_pos hbefore]
        rcases hold with hsame | ⟨hpend, hnone⟩
        · by_cases hin : x < (s.machine path').length
          · rw [if_pos hin, if_pos, hsame]
            by_contra hout
            rw [List.getElem?_eq_getElem hin, List.getElem?_eq_none (by omega)] at hsame
            cases hsame
          · rw [if_neg hin, if_neg]
            intro hin'
            rw [List.getElem?_eq_none (by omega), List.getElem?_eq_getElem hin'] at hsame
            cases hsame
        · have hzero := h.zero path' x hpend
          rw [if_neg (by rw [List.getElem?_eq_none_iff] at hnone; omega), hzero, ite_self]
      · rw [if_neg hbefore, if_neg hbefore]
        split
        · rfl
        · rcases hold with hsame | ⟨hpend, -⟩
          · exact hsame
          · exact absurd (hpending path' x hpend).2 hbefore
    · rw [Files.write_ne _ _ _ hpath, Files.write_ne _ _ _ hpath]
      rcases hold with hsame | ⟨hpend, -⟩
      · exact hsame
      · exact absurd (hpending path' x hpend).1 hpath

theorem Shows.putBlock {flusher : Nat} (h : Shows (some i) pending files s) (hok : SlotsOk s)
    (hkeyed : Keyed path start i s) (hlen : data.length = blockSize)
    (hpending : ∀ path' x, pending path' x → path' = path ∧ x < start)
    (hroom : start ≤ (files path).length ∨
      ∀ j, j ≠ i → (s.slots j).valid = true → (s.slots j).path = path →
      (s.slots j).dataSize = blockSize) :
    Shows none (fun path' x => pending path' x ∨ path' = path ∧ (files path).length ≤ x ∧ x < start)
      (files.write path start data) (putBlock flusher data i s) := by
  have hstart : start % blockSize = 0 := by
    rw [← hkeyed.2.2]
    exact h.aligned i hkeyed.1
  have hsize : (fullSlot flusher data i s).dataSize = blockSize := dataSize_fullSlot hok hkeyed.1
  refine ⟨fun j hj => ?_, fun j hj => ?_, fun j hj => ?_, fun j hstale hj => ?_,
    fun path' x hx => ?_, fun path' x hx => ?_⟩
  · rw [putBlock_slots] at hj ⊢
    split
    · exact h.cacheable i hkeyed.1
    · next hji =>
      rw [if_neg hji] at hj
      exact h.cacheable j hj
  · rw [putBlock_slots] at hj ⊢
    split
    · exact h.aligned i hkeyed.1
    · next hji =>
      rw [if_neg hji] at hj
      exact h.aligned j hj
  · rw [putBlock_slots] at hj ⊢
    split
    · exact nofun
    · next hji =>
      rw [if_neg hji] at hj
      exact h.flusher j hj
  · rw [putBlock_slots] at hj ⊢
    split
    · have hread : readAt (files.write path start data path) start blockSize = data := by
        rw [Files.write_self, ← hlen, readAt_writeAt]
      have hpath : (fullSlot flusher data i s).path = path := hkeyed.2.1
      have hblock : (fullSlot flusher data i s).blockStart = start := hkeyed.2.2
      refine ⟨?_, ?_, ?_⟩
      · rw [hsize]
        decide
      · rw [hsize, hpath, hblock, hread, hlen]
      · rw [hsize, hpath, hblock, hread, ← hlen]
        exact List.take_length
    · next hji =>
      rw [if_neg hji] at hj
      have hstale' : some i ≠ some j := fun heq => hji (Option.some.inj heq).symm
      apply (h.slot j hstale' hj).write
      intro hpath
      have halign := h.aligned j hj
      have hne : (s.slots j).blockStart ≠ start := fun heq =>
        hji (hok.unique j i hj hkeyed.1 (hpath.trans hkeyed.2.1.symm) (heq.trans hkeyed.2.2.symm))
      refine ⟨?_, hroom.imp_right fun hfull => hfull j hji hj hpath⟩
      rw [hlen]
      unfold blockSize at *
      omega
  · have hbefore : path' = path ∧ x < start := by
      rcases hx with hx | hx
      · exact hpending path' x hx
      · exact ⟨hx.1, hx.2.2⟩
    obtain ⟨rfl, hbefore⟩ := hbefore
    rw [Files.write_self, getElem?_writeAt, if_pos hbefore]
    rcases hx with hx | ⟨-, hend, -⟩
    · rw [h.zero path' x hx, ite_self]
    · rw [if_neg (by omega)]
  · have hclean : NotDirty s path' x := by
      intro j hj hpath
      have hxj := hx j
      rw [putBlock_slots] at hxj
      split at hxj
      · next hji =>
        rw [hji] at hpath ⊢
        exact hxj rfl hpath
      · exact hxj hj hpath
    have hold := h.behind path' x hclean
    change (s.machine path')[x]? = _ ∨ _ ∧ (s.machine path')[x]? = none
    by_cases hpath : path' = path
    · subst hpath
      have houtside : ¬ (start ≤ x ∧ x < start + blockSize) := by
        have hxi := hx i
        rw [putBlock_slots, if_pos rfl] at hxi
        have hblock : (fullSlot flusher data i s).blockStart = start := hkeyed.2.2
        rw [hblock] at hxi
        exact hxi rfl hkeyed.2.1
      rw [Files.write_self, getElem?_writeAt, hlen]
      by_cases hbefore : x < start
      · rw [if_pos hbefore]
        by_cases hin : x < (files path').length
        · rw [if_pos hin]
          exact hold.imp_right fun hpend => ⟨Or.inl hpend.1, hpend.2⟩
        · rw [if_neg hin]
          rcases hold with hsame | hpend
          · rw [List.getElem?_eq_none (Nat.le_of_not_lt hin)] at hsame
            exact Or.inr ⟨Or.inr ⟨rfl, Nat.le_of_not_lt hin, hbefore⟩, hsame⟩
          · exact Or.inr ⟨Or.inl hpend.1, hpend.2⟩
      · rw [if_neg hbefore, if_neg (by omega)]
        exact hold.imp_right fun hpend => ⟨Or.inl hpend.1, hpend.2⟩
    · rw [Files.write_ne _ _ _ hpath]
      exact hold.imp_right fun hpend => ⟨Or.inl hpend.1, hpend.2⟩

end Monios.Analysis.FsCache
