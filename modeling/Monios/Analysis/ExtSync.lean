import Monios.Analysis.ExtCache
import Monios.Model.Extfs.Cache

/-!
# What `extfs_sync` certifies

The cache of the ext2 driver over a device that fails. A run is a sequence of block reads, block
writes and calls of `extfs_sync` after the volume was initialised; `last` remembers the last write
to each block that the cache took. Over a device that works it is the cache in the globals of
`Monios.Model.Extfs` (`CacheOf`).
-/

set_option autoImplicit false

namespace Monios.Analysis.ExtSync

open Monios.Library Monios.Model

inductive ExtCall
  | read (block : UInt32)
  | write (block : UInt32) (buffer : ExtBlock)
  | sync

def blockIn (s : ExtCache) (store : Nat → Sector) (b : Nat) : ExtBlock := fun i =>
  if i.val < s.blockSize then (store (s.volumeLba + b * s.sectors + i.val / 512)).byte (i.val % 512) else 0

/-- A run: the cache, what was written last to each block since the start, and what the disk had at
the start. -/
structure ExtRun where
  cache : ExtCache
  last : Nat → Option ExtBlock
  initial : Nat → ExtBlock

namespace ExtRun

def start (s : ExtCache) : ExtRun where
  cache := s.cacheInit
  last := fun _ => none
  initial := blockIn s s.device.store.visible

def expected (r : ExtRun) (b : Nat) : ExtBlock := (r.last b).getD (r.initial b)

def step (r : ExtRun) : ExtCall → Option ExtRun
  | .read block => some { r with cache := (r.cache.readBlockCached block.toNat).2 }
  | .write block buffer =>
    let s := r.cache.writeBlockCached block.toNat buffer
    some { r with
      cache := s
      last := if (s.cacheFind block.toNat).isSome
        then Function.update r.last block.toNat (some (trimBlock s.blockSize buffer)) else r.last }
  | .sync => some { r with cache := r.cache.sync.2 }

end ExtRun

def Addressed (s : ExtCache) (b : Nat) : Prop :=
  s.volumeLba + (b + 1) * s.sectors ≤ if s.device.blockdev then 2 ^ 32 else 2 ^ 28

/-- What the driver flushes is saved: the command goes to the device of the volume, or the device
needs no command. -/
def Saves (d : ExtDevice) : Prop := d.blockdev = false ∨ d.atPorts = true ∨ d.writeThrough = true

/-- The calls for which the cache is right: the number of a block that is written is not the one
that marks an empty slot, and a block that is read is in the cache or has an address on the device.
-/
def Sound (r : ExtRun) : ExtCall → Prop
  | .read block => Addressed r.cache block.toNat ∨ block.toNat ≠ extNoBlock ∧
    (r.cache.cacheFind block.toNat).isSome
  | .write block _ => block.toNat ≠ extNoBlock
  | .sync => True

def Stored (s : ExtCache) (b : Nat) (data : ExtBlock) : Prop :=
  blockIn s s.device.store.visible b = data ∧ blockIn s s.device.store.durable b = data

structure OnDisk (r : ExtRun) (b : Nat) : Prop where
  visible : Addressed r.cache b → blockIn r.cache r.cache.device.store.visible b = r.expected b
  durable : r.last b ≠ none → Saves r.cache.device → blockIn r.cache r.cache.device.store.durable b = r.expected b
  addressed : r.last b ≠ none → Addressed r.cache b

structure CacheOk (r : ExtRun) : Prop where
  unique : ∀ i j, (r.cache.slots i).block = (r.cache.slots j).block → (r.cache.slots i).block ≠ extNoBlock → i = j
  data : ∀ i, (r.cache.slots i).block ≠ extNoBlock →
    trimBlock r.cache.blockSize (r.cache.slots i).data = r.expected (r.cache.slots i).block
  disk : ∀ b, b ≠ extNoBlock → (∀ i, (r.cache.slots i).block = b → (r.cache.slots i).dirty = false) → OnDisk r b
  written : ∀ i, (r.cache.slots i).dirty = true → (r.cache.slots i).block ≠ extNoBlock →
    r.last (r.cache.slots i).block ≠ none
  unmarked : r.last extNoBlock = none

structure SameDevice (d d' : ExtDevice) : Prop where
  blockdev : d'.blockdev = d.blockdev
  atPorts : d'.atPorts = d.atPorts
  writeThrough : d'.writeThrough = d.writeThrough

theorem SameDevice.refl (d : ExtDevice) : SameDevice d d := ⟨rfl, rfl, rfl⟩

/-- Two calls that keep the settings of the device. -/
theorem SameDevice.trans {d d' d'' : ExtDevice} (h : SameDevice d d') (h' : SameDevice d' d'') :
    SameDevice d d'' :=
  ⟨h'.1.trans h.1, h'.2.trans h.2, h'.3.trans h.3⟩

/-- Whether a device saves what it is given depends on its settings. -/
theorem SameDevice.saves {d d' : ExtDevice} (h : SameDevice d d') : Saves d' ↔ Saves d := by
  unfold Saves
  rw [h.blockdev, h.atPorts, h.writeThrough]

section

variable {d : ExtDevice} {lba : Nat} {x : Nat}

/-- A write changes one sector of the device, and fails only without changing it. -/
theorem writeSector_spec (d : ExtDevice) (lba : Nat) (data : Sector) :
    SameDevice d (d.writeSector lba data).2 ∧
      (∀ x, x ≠ lba → d.store.Keeps (d.writeSector lba data).2.store x) ∧
      ((d.writeSector lba data).1 = true → (d.writeSector lba data).2.store.visible lba = data ∧
        (d.writeThrough = true → (d.writeSector lba data).2.store.Settled lba data)) := by
  unfold ExtDevice.writeSector
  split
  · exact ⟨.refl d, fun x _ => .refl d.store x, nofun⟩
  · refine ⟨⟨rfl, rfl, rfl⟩, fun x hx => ?_, fun hok => ?_⟩
    · apply (WriteCache.keeps_put d.store _ hx).trans
      apply WriteCache.keeps_save
    · simp only at hok
      simp only [hok, if_true]
      constructor
      · simp
      · intro hthrough
        have hsettled := @WriteCache.settled_save Nat Sector (d.store.put lba data) lba
          (fun x => (d.answers d.requests).saved x || (d.writeThrough && x == lba)) (by simp [hthrough])
        rwa [WriteCache.visible_put_self] at hsettled

/-- A flush that succeeds makes all writes durable. -/
theorem flush_spec (d : ExtDevice) :
    SameDevice d d.flush.2 ∧ (∀ x, d.store.Keeps d.flush.2.store x) ∧
      (d.flush.1 = true → (d.blockdev = false ∨ d.atPorts = true) → ∀ x,
        d.flush.2.store.Settled x (d.store.visible x)) := by
  unfold ExtDevice.flush
  refine ⟨⟨rfl, rfl, rfl⟩, fun x => ?_, fun hok hports x => ?_⟩
  · apply WriteCache.keeps_save
  · apply WriteCache.settled_save
    simp only at hok
    rcases hports with h | h <;> simp [hok, h]

/-- The sectors of a block are written one after the other until one fails. -/
theorem writeSectors_spec (data : ExtBlock) (hlba : lba + 8 ≤ 2 ^ 32) (n : Nat) (i : Nat)
    (hn : i + n ≤ 8) (d : ExtDevice) :
    SameDevice d (ExtDevice.writeSectors lba data i n d).2 ∧
      (∀ x, ¬(lba + i ≤ x ∧ x < lba + i + n) →
        d.store.Keeps (ExtDevice.writeSectors lba data i n d).2.store x) ∧
      ((ExtDevice.writeSectors lba data i n d).1 = true → ∀ k, i ≤ k → k < i + n →
        (ExtDevice.writeSectors lba data i n d).2.store.visible (lba + k) = sectorOf data k ∧
        (d.writeThrough = true →
          (ExtDevice.writeSectors lba data i n d).2.store.Settled (lba + k)
            (sectorOf data k))) := by
  induction n generalizing i d with
  | zero => exact ⟨.refl d, fun x _ => .refl d.store x, fun _ k hk hk' => by omega⟩
  | succ n ih =>
    have haddr : w32 (w32 lba + i) = lba + i := by
      unfold w32
      omega
    obtain ⟨hsame, hkeeps, hok⟩ := writeSector_spec d (lba + i) (sectorOf data i)
    unfold ExtDevice.writeSectors
    rw [haddr]
    cases hw : d.writeSector (lba + i) (sectorOf data i) with
    | mk ok d' =>
      simp only [hw] at hsame hkeeps hok
      cases ok with
      | false => exact ⟨hsame, fun x hx => hkeeps x (by omega), nofun⟩
      | true =>
        obtain ⟨hsame', hkeeps', hok'⟩ := ih (i + 1) (by omega) d'
        refine ⟨hsame.trans hsame', fun x hx => ?_, fun hrest k hk hk' => ?_⟩
        · apply (hkeeps x (by omega)).trans
          apply hkeeps'
          omega
        · by_cases hki : k = i
          · -- the later sectors are beside this one
            subst hki
            have hk := hkeeps' (lba + k) (by omega)
            exact ⟨hk.1.trans (hok rfl).1, fun hthrough => hk.settled ((hok rfl).2 hthrough)⟩
          · have hrest := hok' hrest k (by omega) (by omega)
            exact ⟨hrest.1, fun hthrough => hrest.2 (hsame.writeThrough.trans hthrough)⟩

end

structure SameVolume (s t : ExtCache) : Prop where
  volumeLba : t.volumeLba = s.volumeLba
  blockSize : t.blockSize = s.blockSize
  device : SameDevice s.device t.device

theorem SameVolume.refl (s : ExtCache) : SameVolume s s := ⟨rfl, rfl, .refl s.device⟩

/-- Two calls that keep the volume. -/
theorem SameVolume.trans {s t u : ExtCache} (h : SameVolume s t) (h' : SameVolume t u) :
    SameVolume s u :=
  ⟨h'.1.trans h.1, h'.2.trans h.2, h.3.trans h'.3⟩

section

variable {s t : ExtCache} {b : Nat}

theorem SameVolume.sectors (h : SameVolume s t) : t.sectors = s.sectors := by
  unfold ExtCache.sectors
  rw [h.blockSize]

/-- A block is read from the same sectors. -/
theorem SameVolume.blockIn (h : SameVolume s t) (store : Nat → Sector) (b : Nat) :
    blockIn t store b = blockIn s store b := by
  unfold ExtSync.blockIn
  rw [h.blockSize, h.volumeLba, h.sectors]

theorem SameVolume.addressed (h : SameVolume s t) (b : Nat) : Addressed t b ↔ Addressed s b := by
  unfold Addressed
  rw [h.volumeLba, h.sectors, h.device.blockdev]

/-- A block has two, four or eight sectors. -/
theorem sectors_cases (s : ExtCache) :
    (s.sectors = 2 ∨ s.sectors = 4 ∨ s.sectors = 8) ∧ s.blockSize = 512 * s.sectors := by
  unfold ExtCache.sectors
  rcases s.sized with h | h | h <;> rw [h] <;> decide

/-- The bytes of a block are those of its sectors, and zero behind them. -/
theorem byte_blockIn (s : ExtCache) (store : Nat → Sector) (b : Nat) {i : Nat} (hi : i < 4096) :
    (blockIn s store b).byte i =
      if i < s.blockSize then (store (s.volumeLba + b * s.sectors + i / 512)).byte
        (i % 512) else 0 := by
  rw [Block.byte, dif_pos hi]
  rfl

/-- A block depends on its own sectors only. -/
theorem blockIn_congr {store store' : Nat → Sector}
    (h : ∀ k, k < s.sectors → store' (s.volumeLba + b * s.sectors + k) = store (s.volumeLba + b * s.sectors + k)) :
    blockIn s store' b = blockIn s store b := by
  obtain ⟨-, hsize⟩ := sectors_cases s
  apply Block.ext
  intro i hi
  rw [byte_blockIn s _ _ hi, byte_blockIn s _ _ hi]
  split
  · rw [h _ (by omega)]
  · rfl

/-- Sectors cut out of a block make the block again. -/
theorem blockIn_of_sectorOf {store : Nat → Sector} {data : ExtBlock}
    (h : ∀ k, k < s.sectors → store (s.volumeLba + b * s.sectors + k) = sectorOf data k) :
    blockIn s store b = trimBlock s.blockSize data := by
  obtain ⟨-, hsize⟩ := sectors_cases s
  apply Block.ext
  intro i hi
  rw [byte_blockIn s _ _ hi, byte_trimBlock]
  split
  · rw [h _ (by omega), byte_sectorOf _ _ (Nat.mod_lt i (by omega)), Nat.div_add_mod]
  · rfl

theorem trimBlock_blockIn (s : ExtCache) (store : Nat → Sector) (b : Nat) :
    trimBlock s.blockSize (blockIn s store b) = blockIn s store b := by
  apply Block.ext
  intro i hi
  rw [byte_trimBlock, byte_blockIn s _ _ hi]
  split <;> rfl

/-- A block is kept when its sectors are. -/
theorem blockIn_of_keeps {store store' : WriteCache Nat Sector} {data : ExtBlock}
    (h : ∀ k, k < s.sectors → store.Keeps store' (s.volumeLba + b * s.sectors + k))
    (hvisible : blockIn s store.visible b = data) :
    blockIn s store'.visible b = data ∧
      (blockIn s store.durable b = data → blockIn s store'.durable b = data) := by
  constructor
  · rw [← hvisible]
    apply blockIn_congr
    intro k hk
    exact (h k hk).1
  · intro hdurable
    obtain ⟨-, hsize⟩ := sectors_cases s
    apply Block.ext
    intro i hi
    have hv := congrArg (fun c => Block.byte c i) hvisible
    have hd := congrArg (fun c => Block.byte c i) hdurable
    simp only [byte_blockIn s _ _ hi] at hv hd ⊢
    by_cases hin : i < s.blockSize
    · rw [if_pos hin] at hv hd ⊢
      rcases (h (i / 512) (by omega)).2 with hk | hk
      · rw [hk, hd]
      · rw [hk, hv]
    · rwa [if_neg hin] at hv ⊢

/-- Reading the sectors of a block returns the block as the device shows it. -/
theorem readSectors_eq (h : Addressed s b) :
    s.readSectors b = blockIn s s.device.store.visible b := by
  obtain ⟨hcases, hsize⟩ := sectors_cases s
  unfold Addressed at h
  rw [Nat.add_one_mul] at h
  funext i
  unfold ExtCache.readSectors blockIn ExtDevice.readSector w32
  rw [← hsize]
  by_cases hin : i.val < s.blockSize
  · rw [if_pos hin, if_pos hin]
    cases hdev : s.device.blockdev with
    | true =>
      rw [hdev] at h
      simp only [if_true] at h ⊢
      rw [show ((s.volumeLba + b * s.sectors) % 2 ^ 32 + i.val / 512) % 2 ^ 32 =
        s.volumeLba + b * s.sectors + i.val / 512 by omega]
    | false =>
      rw [hdev] at h
      simp only [Bool.false_eq_true, if_false] at h ⊢
      rw [show ((s.volumeLba + b * s.sectors) % 2 ^ 32 + i.val / 512) % 2 ^ 32 % 2 ^ 28 =
        s.volumeLba + b * s.sectors + i.val / 512 by omega]
  · rw [if_neg hin, if_neg hin]

/-- Different blocks have no sector in common. -/
theorem beside {c : Nat} (h : c ≠ b) {k : Nat} (hk : k < s.sectors) :
    ¬(s.volumeLba + b * s.sectors ≤ s.volumeLba + c * s.sectors + k ∧
      s.volumeLba + c * s.sectors + k < s.volumeLba + b * s.sectors + s.sectors) := by
  rcases Nat.lt_or_gt_of_ne h with h | h
  · have := Nat.mul_le_mul_right s.sectors (Nat.succ_le_of_lt h)
    rw [Nat.succ_mul] at this
    omega
  · have := Nat.mul_le_mul_right s.sectors (Nat.succ_le_of_lt h)
    rw [Nat.succ_mul] at this
    omega

/-- Writing a block back: it is stored, or the call fails. -/
theorem flushBlock_spec (s : ExtCache) (b : Nat) (data : ExtBlock) :
    ∃ ok d, s.flushBlock b data = (ok, { s with device := d }) ∧ SameDevice s.device d ∧
      (∀ c, c ≠ b → ∀ k, k < s.sectors → s.device.store.Keeps d.store (s.volumeLba + c * s.sectors + k)) ∧
      (ok = true → Addressed s b ∧ blockIn s d.store.visible b = trimBlock s.blockSize data ∧
        (Saves s.device → blockIn s d.store.durable b = trimBlock s.blockSize data)) := by
  obtain ⟨hcases, hsize⟩ := sectors_cases s
  unfold ExtCache.flushBlock
  simp only
  by_cases hrefused : s.sectors = 0 ∨ 4096 / 512 < s.sectors ∨ 0x10000000 < s.volumeLba + b * s.sectors + s.sectors
  · rw [if_pos hrefused]
    exact ⟨false, s.device, rfl, .refl _, fun c _ k _ => .refl _ _, nofun⟩
  · rw [if_neg hrefused]
    obtain ⟨hsame, hkeeps, hwritten⟩ :=
      @writeSectors_spec (s.volumeLba + b * s.sectors) data (by omega) s.sectors 0 (by omega) s.device
    simp only [Nat.add_zero, Nat.zero_add] at hkeeps hwritten
    cases hw : ExtDevice.writeSectors (s.volumeLba + b * s.sectors) data 0 s.sectors s.device with
    | mk ok d =>
      simp only [hw] at hsame hkeeps hwritten
      cases ok with
      | false =>
        refine ⟨false, d, rfl, hsame, fun c hc k hk => ?_, nofun⟩
        apply hkeeps
        exact beside hc hk
      | true =>
        obtain ⟨hsame', hkeeps', hflushed⟩ := flush_spec d
        refine ⟨d.flush.1, d.flush.2, rfl, hsame.trans hsame', fun c hc k hk => ?_,
          fun hok => ⟨?_, ?_, ?_⟩⟩
        · exact (hkeeps _ (beside hc hk)).trans (hkeeps' _)
        · unfold Addressed
          rw [Nat.add_one_mul]
          split <;> omega
        · apply blockIn_of_sectorOf
          intro k hk
          rw [(hkeeps' _).1]
          exact (hwritten rfl k (by omega) hk).1
        · intro hsaves
          apply blockIn_of_sectorOf
          intro k hk
          obtain ⟨hvisible, hthrough⟩ := hwritten rfl k (by omega) hk
          rcases hsaves with h | h | h
          · rw [← hvisible]
            exact (hflushed hok (.inl (hsame.blockdev.trans h)) _).2
          · rw [← hvisible]
            exact (hflushed hok (.inr (hsame.atPorts.trans h)) _).2
          · exact ((hkeeps' _).settled (hthrough h)).2

end

section

variable (s : ExtCache) (i : Fin 8)

theorem setClean_slots (j : Fin 8) :
    (s.setClean i).slots j = { s.slots j with dirty := decide (j ≠ i) && (s.slots j).dirty } := by
  unfold ExtCache.setClean
  by_cases hj : j = i
  · subst hj
    simp
  · simp [hj]

@[simp] theorem setClean_block (j : Fin 8) :
    ((s.setClean i).slots j).block = (s.slots j).block := by rw [setClean_slots]

@[simp] theorem setClean_data (j : Fin 8) :
    ((s.setClean i).slots j).data = (s.slots j).data := by rw [setClean_slots]

@[simp] theorem setClean_dirty (j : Fin 8) :
    ((s.setClean i).slots j).dirty = (decide (j ≠ i) && (s.slots j).dirty) := by rw [setClean_slots]

end

section

variable {r : ExtRun} {b : Nat}

/-- What is expected of a block is what was written last. -/
theorem ExtRun.expected_of_last {data : ExtBlock} (h : r.last b = some data) :
    r.expected b = data := by
  unfold expected
  rw [h]
  rfl

/-- A block on the disk stays there when its sectors are kept. -/
theorem OnDisk.of_keeps (h : OnDisk r b) {t : ExtCache} (hsame : SameVolume r.cache t)
    (hkeeps : ∀ k, k < r.cache.sectors →
      r.cache.device.store.Keeps t.device.store (r.cache.volumeLba + b * r.cache.sectors + k)) :
    OnDisk { r with cache := t } b := by
  refine ⟨fun haddr => ?_, fun hlast hsaves => ?_, fun hlast => ?_⟩
  · rw [hsame.blockIn]
    exact (blockIn_of_keeps hkeeps (h.visible ((hsame.addressed b).mp haddr))).1
  · rw [hsame.blockIn]
    apply (blockIn_of_keeps hkeeps (h.visible (h.addressed hlast))).2
    exact h.durable hlast (hsame.device.saves.mp hsaves)
  · exact (hsame.addressed b).mpr (h.addressed hlast)

/-- A block that is stored may be clean. -/
theorem CacheOk.stored (h : CacheOk r) (hb : b ≠ extNoBlock)
    (hclean : ∀ i, (r.cache.slots i).block = b → (r.cache.slots i).dirty = false)
    (hlast : r.last b ≠ none) (hsaves : Saves r.cache.device) :
    Stored r.cache b (r.expected b) := by
  have hdisk := h.disk b hb hclean
  exact ⟨hdisk.visible (hdisk.addressed hlast), hdisk.durable hlast hsaves⟩

structure Flushes (r : ExtRun) (i : Fin 8) (ok : Bool) (t : ExtCache) : Prop where
  inv : CacheOk { r with cache := t }
  volume : SameVolume r.cache t
  rejected : t.rejected = r.cache.rejected
  block : ∀ j, (t.slots j).block = (r.cache.slots j).block
  data : ∀ j, (t.slots j).data = (r.cache.slots j).data
  dirty : ∀ j, (t.slots j).dirty = true → (r.cache.slots j).dirty = true
  clean : ok = true → (t.slots i).block ≠ extNoBlock → (t.slots i).dirty = false

/-- Flushing a slot keeps the cache in order. -/
theorem CacheOk.flush (h : CacheOk r) (i : Fin 8) :
    ∃ ok t, r.cache.cacheFlushIdx i = (ok, t) ∧ Flushes r i ok t := by
  unfold ExtCache.cacheFlushIdx
  by_cases hdirty : ((r.cache.slots i).dirty && (r.cache.slots i).block != extNoBlock) = true
  · rw [if_pos hdirty]
    simp only [Bool.and_eq_true, bne_iff_ne] at hdirty
    obtain ⟨hdirty, hmark⟩ := hdirty
    obtain ⟨ok, d, hflush, hsame, hkeeps, hok⟩ :=
      flushBlock_spec r.cache (r.cache.slots i).block (r.cache.slots i).data
    have hvolume : SameVolume r.cache { r.cache with device := d } := ⟨rfl, rfl, hsame⟩
    have hother : ∀ b, (∀ j, (r.cache.slots j).block = b → (r.cache.slots j).dirty = false) →
        b ≠ (r.cache.slots i).block := by
      rintro b hclean rfl
      simp [hclean i rfl] at hdirty
    rw [hflush]
    cases ok with
    | false =>
      refine ⟨false, _, rfl, ⟨h.unique, h.data, fun b hb hclean => ?_, h.written, h.unmarked⟩,
        hvolume, rfl,
        fun _ => rfl, fun _ => rfl, fun _ hj => hj, nofun⟩
      exact (h.disk b hb hclean).of_keeps hvolume (hkeeps b (hother b hclean))
    | true =>
      obtain ⟨haddr, hvisible, hdurable⟩ := hok rfl
      have hdata := h.data i hmark
      have hcleaned : SameVolume r.cache (ExtCache.setClean { r.cache with device := d } i) := ⟨rfl, rfl, hsame⟩
      refine ⟨true, _, rfl, ⟨?_, ?_, ?_, ?_, h.unmarked⟩, hcleaned, rfl, fun j => by simp,
        fun j => by simp,
        fun j hj => ?_, fun _ _ => by simp⟩
      · intro j k hjk hj
        simp only [setClean_block] at hjk hj
        exact h.unique j k hjk hj
      · intro j hj
        simp only [setClean_block, setClean_data] at hj ⊢
        exact h.data j hj
      · intro b hb hclean
        by_cases hbi : b = (r.cache.slots i).block
        · subst hbi
          refine ⟨fun _ => ?_, fun _ hsaves => ?_, fun _ => (hcleaned.addressed _).mpr haddr⟩
          · exact hvisible.trans hdata
          · exact (hdurable (hsame.saves.mp hsaves)).trans hdata
        · apply (h.disk b hb fun j hj => ?_).of_keeps hcleaned (hkeeps b hbi)
          have hji : j ≠ i := fun hji => hbi (by rw [← hj, hji])
          simpa [hji] using hclean j (by simpa using hj)
      · intro j hj hmark
        simp only [setClean_block, setClean_dirty, Bool.and_eq_true] at hj hmark ⊢
        exact h.written j hj.2 hmark
      · simp only [setClean_dirty, Bool.and_eq_true] at hj
        exact hj.2
  · rw [if_neg hdirty]
    refine ⟨true, r.cache, rfl, h, .refl _, rfl, fun _ => rfl, fun _ => rfl, fun _ hj => hj,
      fun _ hmark => ?_⟩
    simpa [hmark] using hdirty

/-- A slot may be given a block with the data that are expected of it. -/
theorem CacheOk.setSlot (h : CacheOk r) (hb : b ≠ extNoBlock) (i : Fin 8) (data : ExtBlock)
    (dirty : Bool) (last : Option ExtBlock) (hold : (r.cache.slots i).block = b ∨
      ((r.cache.slots i).block ≠ extNoBlock → (r.cache.slots i).dirty = false))
    (hfree : ∀ j, j ≠ i → (r.cache.slots j).block ≠ b)
    (hdata : trimBlock r.cache.blockSize data = last.getD (r.initial b))
    (hdirty : dirty = true → last ≠ none) (hclean : dirty = false → last = r.last b ∧ OnDisk r b) :
    CacheOk { r with cache := r.cache.setSlot i b data dirty, last := Function.update r.last b last } := by
  refine ⟨?_, ?_, ?_, ?_, ?_⟩
  · intro j k hjk hj
    by_cases hji : j = i <;> by_cases hki : k = i
    · rw [hji, hki]
    · subst hji
      simp only [ExtCache.setSlot, Function.update_self, Function.update_of_ne hki] at hjk
      exact absurd hjk.symm (hfree k hki)
    · subst hki
      simp only [ExtCache.setSlot, Function.update_self, Function.update_of_ne hji] at hjk
      exact absurd hjk (hfree j hji)
    · simp only [ExtCache.setSlot, Function.update_of_ne hji, Function.update_of_ne hki] at hjk hj
      exact h.unique j k hjk hj
  · intro j hj
    by_cases hji : j = i
    · subst hji
      simpa only [ExtCache.setSlot, ExtRun.expected, Function.update_self] using hdata
    · simp only [ExtCache.setSlot, ExtRun.expected, Function.update_of_ne hji] at hj ⊢
      rw [Function.update_of_ne (hfree j hji)]
      exact h.data j hj
  · intro c hc hslots
    by_cases hcb : c = b
    · subst hcb
      have hd : dirty = false := by simpa [ExtCache.setSlot] using hslots i (by simp [ExtCache.setSlot])
      obtain ⟨rfl, hdisk⟩ := hclean hd
      rw [Function.update_eq_self]
      exact ⟨hdisk.visible, hdisk.durable, hdisk.addressed⟩
    · have hdisk := h.disk c hc fun j hj => by
        by_cases hji : j = i
        · subst hji
          rcases hold with hold | hold
          · exact absurd (hj.symm.trans hold) hcb
          · exact hold (hj ▸ hc)
        · have := hslots j (by simp [ExtCache.setSlot, Function.update_of_ne hji, hj])
          simpa [ExtCache.setSlot, Function.update_of_ne hji] using this
      refine ⟨fun haddr => ?_, fun hlast hsaves => ?_, fun hlast => ?_⟩
      · simp only [ExtRun.expected, Function.update_of_ne hcb]
        exact hdisk.visible haddr
      · simp only [ExtRun.expected, Function.update_of_ne hcb] at hlast ⊢
        exact hdisk.durable hlast hsaves
      · simp only [Function.update_of_ne hcb] at hlast
        exact hdisk.addressed hlast
  · intro j hj hmark
    by_cases hji : j = i
    · subst hji
      simp only [ExtCache.setSlot, Function.update_self] at hj ⊢
      exact hdirty hj
    · simp only [ExtCache.setSlot, Function.update_of_ne hji] at hj hmark ⊢
      rw [Function.update_of_ne (hfree j hji)]
      exact h.written j hj hmark
  · simp only [Function.update_of_ne hb.symm]
    exact h.unmarked

/-- The slot that is found is the slot of the block. -/
theorem cacheFind_some {s : ExtCache} {i : Fin 8} (h : s.cacheFind b = some i) :
    (s.slots i).block = b := by
  simpa using List.find?_some h

/-- When none is found no slot is. -/
theorem cacheFind_none {s : ExtCache} : s.cacheFind b = none ↔ ∀ i, (s.slots i).block ≠ b := by
  unfold ExtCache.cacheFind
  simp

def ReusedAfterFlush (s t : ExtCache) : Prop :=
  ∀ i, (s.slots i).dirty = true → (s.slots i).block ≠ extNoBlock → (t.slots i).block ≠ (s.slots i).block →
    Stored t (s.slots i).block (trimBlock s.blockSize (s.slots i).data)

/-- A call that leaves the blocks of the slots reuses none. -/
theorem reusedAfterFlush_of_block {s t : ExtCache}
    (h : ∀ i, (t.slots i).block = (s.slots i).block) :
    ReusedAfterFlush s t := by
  intro i _ _ hne
  exact absurd (h i) hne

/-- A slot is reused when its block was flushed. -/
theorem CacheOk.insert (h : CacheOk r) (hb : b ≠ extNoBlock)
    (hnone : ∀ i, (r.cache.slots i).block ≠ b) {i : Fin 8} {t : ExtCache}
    (hflush : Flushes r i true t) (data : ExtBlock) (dirty : Bool) (last : Option ExtBlock)
    (hdata : trimBlock r.cache.blockSize data = last.getD (r.initial b))
    (hdirty : dirty = true → last ≠ none) (hclean : dirty = false → last = r.last b) :
    CacheOk { r with cache := t.setSlot i b data dirty, last := Function.update r.last b last } ∧
      (Saves r.cache.device → ReusedAfterFlush r.cache (t.setSlot i b data dirty)) := by
  have hnone' : ∀ j, (t.slots j).block ≠ b := fun j => hflush.block j ▸ hnone j
  constructor
  · apply hflush.inv.setSlot hb i data dirty last
    · exact .inr (hflush.clean rfl)
    · exact fun j _ => hnone' j
    · rw [← hdata, ← hflush.volume.blockSize]
    · exact hdirty
    · intro hd
      exact ⟨hclean hd, hflush.inv.disk b hb fun j hj => absurd hj (hnone' j)⟩
  · intro hsaves j hj hmark hne
    by_cases hji : j = i
    · subst hji
      rw [h.data j hmark]
      apply hflush.inv.stored hmark
      · intro k hk
        have hkj : k = j := h.unique k j ((hflush.block k).symm.trans hk) (by rwa [← hflush.block k, hk])
        rw [hkj]
        exact hflush.clean rfl (by rwa [hflush.block])
      · exact h.written j hj hmark
      · exact hflush.volume.device.saves.mpr hsaves
    · refine absurd ?_ hne
      simp only [ExtCache.setSlot, Function.update_of_ne hji]
      exact hflush.block j

/-- A read returns what is expected of the block. -/
theorem CacheOk.read (h : CacheOk r)
    (hsound : Addressed r.cache b ∨ b ≠ extNoBlock ∧ (r.cache.cacheFind b).isSome = true)
    (hb : b ≠ extNoBlock) :
    (r.cache.readBlockCached b).1 = r.expected b ∧
      CacheOk { r with cache := (r.cache.readBlockCached b).2 } ∧
      (Saves r.cache.device → ReusedAfterFlush r.cache (r.cache.readBlockCached b).2) := by
  unfold ExtCache.readBlockCached
  cases hfind : r.cache.cacheFind b with
  | some i =>
    have hi := cacheFind_some hfind
    have hset := h.setSlot hb i (r.cache.slots i).data (r.cache.slots i).dirty (r.last b) (.inl hi)
      (fun j hj heq => hj (h.unique j i (heq.trans hi.symm) (heq ▸ hb))) (hi ▸ h.data i (hi ▸ hb))
      (fun hd => hi ▸ h.written i hd (hi ▸ hb))
      (fun hd => ⟨rfl, h.disk b hb fun j hj => by rwa [h.unique j i (hj.trans hi.symm) (hj ▸ hb)]⟩)
    rw [Function.update_eq_self] at hset
    simp only [hi]
    refine ⟨hi ▸ h.data i (hi ▸ hb), hset, fun _ => reusedAfterFlush_of_block fun j => ?_⟩
    unfold ExtCache.setSlot
    by_cases hj : j = i
    · subst hj
      simp [hi]
    · simp [Function.update_of_ne hj]
  | none =>
    have hnone := cacheFind_none.mp hfind
    have haddr : Addressed r.cache b := by simpa [hfind] using hsound
    have hdisk := h.disk b hb fun i hi => absurd hi (hnone i)
    have hbuffer : r.cache.readSectors b = r.expected b :=
      (readSectors_eq haddr).trans (hdisk.visible haddr)
    have htrim : ∀ n, n = r.cache.blockSize → trimBlock n (r.expected b) = r.expected b := by
      rintro n rfl
      rw [← hbuffer, readSectors_eq haddr]
      exact trimBlock_blockIn _ _ _
    obtain ⟨ok, t, hrun, hflush⟩ := h.flush r.cache.cacheFindVictim
    simp only [hrun]
    cases ok with
    | false =>
      exact ⟨hbuffer, hflush.inv, fun _ => reusedAfterFlush_of_block hflush.block⟩
    | true =>
      have hinsert := h.insert hb hnone hflush (r.expected b) false (r.last b) (htrim _ rfl) nofun fun _ => rfl
      rw [Function.update_eq_self] at hinsert
      simp only [hbuffer, htrim _ hflush.volume.blockSize]
      exact ⟨trivial, hinsert⟩

theorem isSome_cacheFind {s : ExtCache} {i : Fin 8} (h : (s.slots i).block = b) :
    (s.cacheFind b).isSome = true := by
  rw [Option.isSome_iff_ne_none]
  intro hnone
  exact cacheFind_none.mp hnone i h

/-- A failed flush leaves the block dirty. -/
theorem Flushes.reject {i : Fin 8} {ok : Bool} {t : ExtCache} (h : Flushes r i ok t) :
    CacheOk { r with cache := { t with rejected := true } } := by
  obtain ⟨hunique, hdata, hdisk, hwritten, hunmarked⟩ := h.inv
  refine ⟨hunique, hdata, fun b hb hclean => ?_, hwritten, hunmarked⟩
  have hdisk := hdisk b hb hclean
  exact ⟨hdisk.visible, hdisk.durable, hdisk.addressed⟩

/-- A write is expected of its block from then on. -/
theorem CacheOk.write (h : CacheOk r) (hb : b ≠ extNoBlock) (buffer : ExtBlock) {t : ExtCache}
    (ht : r.cache.writeBlockCached b buffer = t) : CacheOk { r with
        cache := t
        last := if (t.cacheFind b).isSome then Function.update r.last b (some (trimBlock t.blockSize buffer))
          else r.last } ∧ (Saves r.cache.device → ReusedAfterFlush r.cache t) := by
  unfold ExtCache.writeBlockCached at ht
  cases hfind : r.cache.cacheFind b with
  | some i =>
    have hi := cacheFind_some hfind
    have hset := h.setSlot hb i (trimBlock r.cache.blockSize buffer) true
      (some (trimBlock r.cache.blockSize buffer)) (.inl hi)
      (fun j hj heq => hj (h.unique j i (heq.trans hi.symm) (heq ▸ hb))) (trimBlock_trimBlock _ _) nofun nofun
    simp only [hfind, hi] at ht
    subst ht
    rw [if_pos (isSome_cacheFind (i := i) (by simp [ExtCache.setSlot]))]
    refine ⟨hset, fun _ => reusedAfterFlush_of_block fun j => ?_⟩
    unfold ExtCache.setSlot
    by_cases hj : j = i
    · subst hj
      simp [hi]
    · simp [Function.update_of_ne hj]
  | none =>
    have hnone := cacheFind_none.mp hfind
    obtain ⟨ok, u, hrun, hflush⟩ := h.flush r.cache.cacheFindVictim
    simp only [hfind, hrun] at ht
    subst ht
    cases ok with
    | false =>
      rw [if_neg]
      · exact ⟨hflush.reject, fun _ => reusedAfterFlush_of_block hflush.block⟩
      · rw [Bool.not_eq_true, Option.isSome_eq_false_iff, Option.isNone_iff_eq_none]
        exact cacheFind_none.mpr fun i => hflush.block i ▸ hnone i
    | true =>
      rw [if_pos (isSome_cacheFind (i := r.cache.cacheFindVictim) (by simp [ExtCache.setSlot]))]
      apply h.insert hb hnone hflush
      · rw [← hflush.volume.blockSize]
        exact trimBlock_trimBlock _ _
      · exact nofun
      · exact nofun

/-- Syncing the slots one by one keeps the cache in order. -/
theorem CacheOk.syncSlots (h : CacheOk r) (idxs : List (Fin 8)) (ok : Bool) :
    ∃ ok' t, ExtCache.syncSlots idxs (ok, r.cache) = (ok', t) ∧ CacheOk { r with cache := t } ∧
      SameVolume r.cache t ∧ (∀ j, (t.slots j).block = (r.cache.slots j).block) ∧
      (∀ j, (t.slots j).dirty = true → (r.cache.slots j).dirty = true) ∧
      (ok' = true → ok = true ∧ ∀ i ∈ idxs, (t.slots i).block ≠ extNoBlock → (t.slots i).dirty = false) := by
  induction idxs generalizing r ok with
  | nil =>
    refine ⟨ok, r.cache, rfl, h, .refl _, fun _ => rfl, fun _ hj => hj,
      fun hok => ⟨hok, fun i hi => ?_⟩⟩
    simp at hi
  | cons i idxs ih =>
    obtain ⟨flushed, t, hrun, hflush⟩ := h.flush i
    obtain ⟨ok', u, hrest, hinv, hvolume, hblock, hdirty, hok⟩ := ih hflush.inv (ok && flushed)
    refine ⟨ok', u, ?_, hinv, hflush.volume.trans hvolume, fun j => (hblock j).trans (hflush.block j),
      fun j hj => hflush.dirty j (hdirty j hj), fun hok' => ?_⟩
    · unfold ExtCache.syncSlots
      simp only [hrun]
      exact hrest
    · obtain ⟨hboth, hclean⟩ := hok hok'
      rw [Bool.and_eq_true] at hboth
      refine ⟨hboth.1, fun j hj hmark => ?_⟩
      rcases List.mem_cons.mp hj with rfl | hj
      · -- no later slot makes this one dirty
        cases hd : (u.slots j).dirty with
        | false => rfl
        | true =>
          rw [hblock] at hmark
          rw [← hflush.clean hboth.2 hmark]
          exact (hdirty j hd).symm
      · exact hclean j hj hmark

/-- A sync keeps the cache in order. -/
theorem CacheOk.sync (h : CacheOk r) :
    CacheOk { r with cache := r.cache.sync.2 } ∧ ReusedAfterFlush r.cache r.cache.sync.2 ∧
      (r.cache.sync.1 = true → Saves r.cache.device → ∀ b data, r.last b = some data →
        Stored r.cache.sync.2 b data) := by
  obtain ⟨ok, t, hrun, hinv, hvolume, hblock, -, hok⟩ :=
    h.syncSlots (List.finRange 8) (!r.cache.rejected)
  unfold ExtCache.sync
  rw [hrun]
  refine ⟨hinv, reusedAfterFlush_of_block hblock, fun hsync hsaves b data hlast => ?_⟩
  have hb : b ≠ extNoBlock := by
    rintro rfl
    simp [h.unmarked] at hlast
  rw [← ExtRun.expected_of_last hlast]
  apply hinv.stored hb
  · rintro i rfl
    exact (hok hsync).2 i (List.mem_finRange i) hb
  · simp [hlast]
  · exact hvolume.device.saves.mpr hsaves

end

section

variable {r r' : ExtRun}

theorem Sound.ne_marker {block : UInt32} (h : Sound r (.read block)) :
    block.toNat ≠ extNoBlock := by
  rcases h with h | h
  · obtain ⟨hcases, -⟩ := sectors_cases r.cache
    unfold Addressed at h
    unfold extNoBlock
    rintro heq
    rw [heq] at h
    split at h <;> rcases hcases with hs | hs | hs <;> rw [hs] at h <;> omega
  · exact h.1

/-- Every call keeps the cache in order; a sync that succeeds stores every block. -/
theorem CacheOk.step {call : ExtCall} (h : CacheOk r) (hsound : Sound r call)
    (hstep : r.step call = some r') :
    CacheOk r' ∧ (Saves r.cache.device → ReusedAfterFlush r.cache r'.cache) := by
  cases call with
  | read block =>
    obtain rfl := Option.some.inj hstep
    exact (h.read hsound hsound.ne_marker).2
  | write block buffer =>
    obtain rfl := Option.some.inj hstep
    exact h.write hsound buffer rfl
  | sync =>
    obtain rfl := Option.some.inj hstep
    obtain ⟨hinv, hreused, -⟩ := h.sync
    exact ⟨hinv, fun _ => hreused⟩

end

/-- The device carries out what it is asked for. -/
def Works (d : ExtDevice) : Prop := d.blockdev = true ∧ ∀ n, (d.answers n).ok = true

/-- The cache in the globals of a driver, over a device that works. -/
structure CacheOf (s : Extfs) (t : ExtCache) : Prop where
  works : Works t.device
  disk : t.device.store.visible = s.disk
  volumeLba : t.volumeLba = s.info.volumeLba
  blockSize : t.blockSize = s.info.blockSize
  slots : t.slots = s.cache
  counter : t.counter = s.cacheCounter
  rejected : t.rejected = s.writeRejected

section

variable {d : ExtDevice} {s : Extfs} {t : ExtCache}

/-- A write to a device that works is read back. -/
theorem Works.writeSector (h : Works d) (lba : Nat) (data : Sector) :
    (d.writeSector lba data).1 = true ∧ Works (d.writeSector lba data).2 ∧
      (d.writeSector lba data).2.store.visible = Function.update d.store.visible lba data := by
  obtain ⟨hdev, hok⟩ := h
  have hports : ¬ (!d.blockdev && 0x0FFFFFFF < lba) = true := by simp [hdev]
  unfold ExtDevice.writeSector
  rw [if_neg hports]
  refine ⟨hok _, ⟨hdev, hok⟩, ?_⟩
  simp only [hok, if_true]
  rfl

/-- A flush of a device that works changes nothing that is read. -/
theorem Works.flush (h : Works d) :
    d.flush.1 = true ∧ Works d.flush.2 ∧ d.flush.2.store.visible = d.store.visible :=
  ⟨h.2 _, h, rfl⟩

/-- The loop of `extfs_flush_block` writes all sectors. -/
theorem Works.writeSectors (h : Works d) {lba : Nat} (data : ExtBlock) (n i : Nat)
    (hlba : lba + i + n ≤ 2 ^ 32) :
    ∃ d', ExtDevice.writeSectors lba data i n d = (true, d') ∧ Works d' ∧
      d'.store.visible = fun x =>
        if lba + i ≤ x ∧ x < lba + i + n then sectorOf data (x - lba) else d.store.visible x := by
  induction n generalizing i d with
  | zero =>
    refine ⟨d, rfl, h, funext fun x => ?_⟩
    rw [if_neg (by omega)]
  | succ n ih =>
    have hw : w32 (w32 lba + i) = lba + i := by
      unfold w32
      omega
    obtain ⟨hok, hworks, hvisible⟩ := h.writeSector (lba + i) (sectorOf data i)
    obtain ⟨d', hrun, hworks', hvisible'⟩ := ih hworks (i + 1) (by omega)
    refine ⟨d', ?_, hworks', ?_⟩
    · unfold ExtDevice.writeSectors
      rw [hw]
      generalize d.writeSector (lba + i) (sectorOf data i) = r at hok hrun ⊢
      obtain ⟨ok, d₁⟩ := r
      obtain rfl : ok = true := hok
      exact hrun
    · rw [hvisible', hvisible]
      funext x
      by_cases hx : x = lba + i
      · subst hx
        rw [if_neg (by omega), if_pos (by omega), Function.update_self, Nat.add_sub_cancel_left]
      · rw [Function.update_of_ne hx]
        exact if_congr (by omega) rfl rfl

/-- Blocks have as many sectors. -/
theorem CacheOf.sectors (h : CacheOf s t) : t.sectors = s.info.sectors := by
  unfold ExtCache.sectors ExtfsInfo.sectors
  rw [h.blockSize]

/-- Writing a block fails for the same addresses, and writes the same sectors. -/
theorem CacheOf.flushBlock (h : CacheOf s t) (block : Nat) (data : ExtBlock) :
    (extfsFlushBlock s block data = none ∧ t.flushBlock block data = (false, t)) ∨
      ∃ s' t', extfsFlushBlock s block data = some s' ∧ t.flushBlock block data = (true, t') ∧
        CacheOf s' t' := by
  unfold extfsFlushBlock ExtCache.flushBlock
  dsimp only
  rw [h.sectors, h.volumeLba]
  by_cases hout : s.info.sectors = 0 ∨ 8 < s.info.sectors ∨
      0x10000000 < s.info.volumeLba + block * s.info.sectors + s.info.sectors
  · rw [if_pos hout, if_pos hout]
    exact .inl ⟨rfl, rfl⟩
  · obtain ⟨d', hrun, hworks, hvisible⟩ := @Works.writeSectors _ h.works
      (s.info.volumeLba + block * s.info.sectors) data s.info.sectors 0 (by omega)
    rw [if_neg hout, if_neg hout, hrun]
    refine .inr ⟨_, _, rfl, Prod.ext hworks.flush.1 rfl,
      ⟨hworks.flush.2.1, ?_, rfl, h.blockSize, h.slots, h.counter, h.rejected⟩⟩
    rw [hworks.flush.2.2, hvisible, h.disk]
    rfl

/-- A slot is written back alike. -/
theorem CacheOf.cacheFlushIdx (h : CacheOf s t) (idx : Fin 8) :
    (extfsCacheFlushIdx s idx = none ∧ t.cacheFlushIdx idx = (false, t)) ∨
      ∃ s' t', extfsCacheFlushIdx s idx = some s' ∧ t.cacheFlushIdx idx = (true, t') ∧
        CacheOf s' t' := by
  unfold extfsCacheFlushIdx ExtCache.cacheFlushIdx
  rw [h.slots]
  by_cases hdirty : ((s.cache idx).dirty && (s.cache idx).block != extNoBlock) = true
  · rw [if_pos hdirty, if_pos hdirty]
    rcases h.flushBlock (s.cache idx).block (s.cache idx).data with ⟨hs, ht⟩ | ⟨s', t', hs, ht, h'⟩
    · rw [hs, ht]
      exact .inl ⟨rfl, rfl⟩
    · rw [hs, ht]
      refine .inr ⟨_, _, rfl, rfl,
        ⟨h'.works, h'.disk, h'.volumeLba, h'.blockSize, ?_, h'.counter, h'.rejected⟩⟩
      unfold ExtCache.setClean
      rw [h'.slots]
  · rw [if_neg hdirty, if_neg hdirty]
    exact .inr ⟨s, t, rfl, rfl, h⟩

/-- A slot is set alike. -/
theorem CacheOf.setSlot (h : CacheOf s t) (i : Fin 8) (block : Nat) (data : ExtBlock) (dirty : Bool) :
    CacheOf (extfsSetSlot s i block data dirty) (t.setSlot i block data dirty) where
  works := h.works
  disk := h.disk
  volumeLba := h.volumeLba
  blockSize := h.blockSize
  slots := by
    unfold extfsSetSlot ExtCache.setSlot
    rw [h.slots, h.counter]
  counter := by
    unfold extfsSetSlot ExtCache.setSlot
    rw [h.counter]
  rejected := h.rejected

/-- A block is found in the same slot. -/
theorem CacheOf.cacheFind (h : CacheOf s t) (block : Nat) :
    t.cacheFind block = extfsCacheFind s block := by
  unfold ExtCache.cacheFind extfsCacheFind
  rw [h.slots]

/-- The victim is the same. -/
theorem CacheOf.cacheFindVictim (h : CacheOf s t) : t.cacheFindVictim = extfsCacheFindVictim s := by
  unfold ExtCache.cacheFindVictim extfsCacheFindVictim
  rw [h.slots]

/-- The disk reads alike. -/
theorem CacheOf.readSectors (h : CacheOf s t) (block : Nat) :
    t.readSectors block = extfsDiskBlock s block := by
  unfold ExtCache.readSectors extfsDiskBlock readBlockFrom ExtDevice.readSector
  rw [h.sectors, h.volumeLba, h.disk]
  simp only [h.works.1, if_true]
  rfl

/-- A block is read alike. -/
theorem CacheOf.readBlockCached (h : CacheOf s t) (block : Nat) :
    (t.readBlockCached block).1 = (extfsReadBlockCached block s).1 ∧
      CacheOf (extfsReadBlockCached block s).2 (t.readBlockCached block).2 := by
  unfold ExtCache.readBlockCached extfsReadBlockCached
  rw [h.cacheFind]
  cases extfsCacheFind s block with
  | some i =>
    dsimp only
    rw [h.slots, h.blockSize]
    exact ⟨rfl, h.setSlot _ _ _ _⟩
  | none =>
    dsimp only
    rw [h.cacheFindVictim, h.readSectors]
    rcases h.cacheFlushIdx (extfsCacheFindVictim s) with ⟨hs, ht⟩ | ⟨s', t', hs, ht, h'⟩
    · rw [hs, ht]
      exact ⟨rfl, h⟩
    · rw [hs, ht]
      dsimp only
      rw [h'.blockSize]
      exact ⟨rfl, h'.setSlot _ _ _ _⟩

/-- A block is written alike. -/
theorem CacheOf.writeBlockCached (h : CacheOf s t) (block : Nat) (buffer : ExtBlock) :
    CacheOf (extfsWriteBlockCached block buffer s) (t.writeBlockCached block buffer) := by
  unfold ExtCache.writeBlockCached extfsWriteBlockCached
  rw [h.cacheFind]
  cases hfind : extfsCacheFind s block with
  | some i =>
    have hblock : (s.cache i).block = block := by
      simpa [extfsCacheFind] using List.find?_some hfind
    dsimp only
    rw [h.slots, h.blockSize, hblock]
    exact h.setSlot _ _ _ _
  | none =>
    dsimp only
    rw [h.cacheFindVictim]
    rcases h.cacheFlushIdx (extfsCacheFindVictim s) with ⟨hs, ht⟩ | ⟨s', t', hs, ht, h'⟩
    · rw [hs, ht]
      exact ⟨h.works, h.disk, h.volumeLba, h.blockSize, h.slots, h.counter, rfl⟩
    · rw [hs, ht]
      dsimp only
      rw [h'.blockSize]
      exact h'.setSlot _ _ _ _

end

end Monios.Analysis.ExtSync
