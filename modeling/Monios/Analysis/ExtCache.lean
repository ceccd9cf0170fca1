import Monios.Analysis.FatAccess
import Monios.Library.Run
import Monios.Model.Extfs.Volume

/-!
# The ext2 volume behind the block cache

`extfs_read_block` and `extfs_write_block` go through a cache of eight blocks that is written back
when a slot is needed. Above the cache the driver sees a volume, a block for each number below
`blocks_count`: what a slot holds, and what the disk holds for a block that is not cached
(`extBlockOf`).
-/

set_option autoImplicit false

namespace Monios.Analysis

open Monios.Library Monios.Model

structure ExtVolume where
  info : ExtfsInfo
  view : Nat → ExtBlock

def extGeometry (info : ExtfsInfo) : ExtfsInfo := { info with freeBlocks := 0, freeInodes := 0 }

def extBlockOf (s : Extfs) (b : Nat) : ExtBlock :=
  match extfsCacheFind s b with
  | some i => trimBlock s.info.blockSize (s.cache i).data
  | none => extfsDiskBlock s b

/-- The volume has one of the block sizes that `extfs_parse_super` accepts, and ends below the
sector `limit`. -/
structure ExtFits (limit : Nat) (info : ExtfsInfo) : Prop where
  size : info.blockSize = 1024 ∨ info.blockSize = 2048 ∨ info.blockSize = 4096
  count : info.blocksCount ≤ extNoBlock
  fits : info.volumeLba + info.blocksCount * info.sectors ≤ limit

/-- The invariant of the cache: no block is in two slots, and a slot that is not dirty holds what is
on the disk. -/
structure CacheInv (s : Extfs) : Prop where
  inside : ∀ i, (s.cache i).block ≠ extNoBlock → (s.cache i).block < s.info.blocksCount
  unique : ∀ i j, (s.cache i).block = (s.cache j).block → (s.cache i).block ≠ extNoBlock → i = j
  clean : ∀ i, (s.cache i).dirty = false → (s.cache i).block ≠ extNoBlock →
    trimBlock s.info.blockSize (s.cache i).data = extfsDiskBlock s (s.cache i).block

structure Shows (V : ExtVolume) (s : Extfs) : Prop where
  info : extGeometry s.info = extGeometry V.info
  cache : CacheInv s
  blocks : ∀ b, b < s.info.blocksCount → extBlockOf s b = V.view b

section

variable {V : ExtVolume} {s : Extfs} {limit b : Nat}

namespace ExtFits

theorem sectors (h : ExtFits limit s.info) :
    (s.info.blockSize = 1024 ∧ s.info.sectors = 2) ∨
      (s.info.blockSize = 2048 ∧ s.info.sectors = 4) ∨
      (s.info.blockSize = 4096 ∧ s.info.sectors = 8) := by
  unfold ExtfsInfo.sectors
  rcases h.size with h | h | h <;> simp [h]

theorem ne_noBlock (h : ExtFits limit s.info) (hb : b < s.info.blocksCount) : b ≠ extNoBlock := by
  have := h.count
  omega

end ExtFits

theorem byte_trimBlock (n : Nat) (buffer : ExtBlock) (i : Nat) :
    (trimBlock n buffer).byte i = if i < n then buffer.byte i else 0 := by
  unfold trimBlock Block.byte
  split <;> simp

theorem byte_sectorOf (data : ExtBlock) (i : Nat) {j : Nat} (hj : j < 512) :
    (sectorOf data i).byte j = data.byte (512 * i + j) := by
  rw [Block.byte, dif_pos hj]
  rfl

theorem byte_extfsDiskBlock (h : ExtFits limit s.info) (hl : limit ≤ 2 ^ 32)
    (hb : b < s.info.blocksCount) {i : Nat} (hi : i < 4096) : (extfsDiskBlock s b).byte i =
      if i < s.info.blockSize then (s.disk (s.info.volumeLba + b * s.info.sectors + i / 512)).byte
        (i % 512)
      else 0 := by
  have hfits := h.fits
  have hstep : (b + 1) * s.info.sectors ≤ s.info.blocksCount * s.info.sectors :=
    Nat.mul_le_mul_right _ hb
  have hsize : s.info.blockSize = 512 * s.info.sectors := by rcases h.sectors with h | h | h <;> omega
  have hpos : 0 < s.info.sectors := by rcases h.sectors with h | h | h <;> omega
  rw [Nat.add_one_mul] at hstep
  have hlba : w32 (s.info.volumeLba + b * s.info.sectors) = s.info.volumeLba + b * s.info.sectors :=
    Nat.mod_eq_of_lt (by omega)
  unfold extfsDiskBlock readBlockFrom Block.byte
  simp only [dif_pos hi, hlba, hsize]
  split
  · next hlt =>
      rw [show w32 (s.info.volumeLba + b * s.info.sectors + i / 512) =
        s.info.volumeLba + b * s.info.sectors + i / 512 from Nat.mod_eq_of_lt (by omega)]
  · rfl

theorem trimBlock_extfsDiskBlock (h : ExtFits limit s.info) (hl : limit ≤ 2 ^ 32)
    (hb : b < s.info.blocksCount) :
    trimBlock s.info.blockSize (extfsDiskBlock s b) = extfsDiskBlock s b := by
  apply Block.ext
  intro i hi
  rw [byte_trimBlock, byte_extfsDiskBlock h hl hb hi]
  split <;> rfl

theorem trimBlock_trimBlock (n : Nat) (buffer : ExtBlock) :
    trimBlock n (trimBlock n buffer) = trimBlock n buffer := by
  apply Block.ext
  intro i _
  simp only [byte_trimBlock]
  split <;> rfl

theorem extfsDiskBlock_writeSectors (h : ExtFits limit s.info) (hl : limit ≤ 2 ^ 32) {t : Extfs}
    {c : Nat} {data : ExtBlock} (hinfo : t.info = s.info)
    (hdisk : t.disk = writeSectors s.disk (s.info.volumeLba + c * s.info.sectors) data s.info.sectors)
    (hb : b < s.info.blocksCount) :
    extfsDiskBlock t b = if b = c then trimBlock s.info.blockSize data else extfsDiskBlock s b := by
  apply Block.ext
  intro i hi
  have hsize : s.info.blockSize = 512 * s.info.sectors := by rcases h.sectors with h | h | h <;> omega
  rw [byte_extfsDiskBlock (s := t) (hinfo ▸ h) hl (hinfo ▸ hb) hi, hinfo, hdisk]
  simp only [writeSectors]
  by_cases hbc : b = c
  · subst hbc
    rw [if_pos rfl, byte_trimBlock]
    split
    · next hlt =>
        rw [if_pos ⟨by omega, by omega⟩, show s.info.volumeLba + b * s.info.sectors + i / 512 -
          (s.info.volumeLba + b * s.info.sectors) = i / 512 by omega]
        rw [byte_sectorOf data _ (Nat.mod_lt _ (by decide)), Nat.div_add_mod]
    · rfl
  · rw [if_neg hbc, byte_extfsDiskBlock h hl hb hi]
    split
    · next hlt =>
        rw [if_neg]
        -- the two blocks have no sector in common
        rcases h.sectors with ⟨-, hs⟩ | ⟨-, hs⟩ | ⟨-, hs⟩ <;> rw [hs] at hsize ⊢ <;> omega
    · rfl

theorem extBlockOf_of_slot (h : CacheInv s) {i : Fin 8} (hi : (s.cache i).block = b)
    (hb : b ≠ extNoBlock) :
    extfsCacheFind s b = some i ∧ extBlockOf s b = trimBlock s.info.blockSize (s.cache i).data := by
  have hfind : extfsCacheFind s b = some i := by
    cases hf : extfsCacheFind s b with
    | none =>
      have := List.find?_eq_none.mp hf i (List.mem_finRange i)
      simp [hi] at this
    | some j =>
      have hj : (s.cache j).block = b := by simpa using List.find?_some hf
      rw [h.unique j i (hj.trans hi.symm) (by rw [hj]; exact hb)]
  refine ⟨hfind, ?_⟩
  unfold extBlockOf
  rw [hfind]

theorem extBlockOf_of_forall_ne (h : ∀ i, (s.cache i).block ≠ b) :
    extfsCacheFind s b = none ∧ extBlockOf s b = extfsDiskBlock s b := by
  have hfind : extfsCacheFind s b = none := by
    apply List.find?_eq_none.mpr
    intro i _
    simpa using h i
  refine ⟨hfind, ?_⟩
  unfold extBlockOf
  rw [hfind]

theorem extBlockOf_congr {t : Extfs} (hinfo : t.info = s.info)
    (hcache : ∀ j, (t.cache j).block = (s.cache j).block ∧ (t.cache j).data = (s.cache j).data)
    (hdisk : (∀ j, (s.cache j).block ≠ b) → extfsDiskBlock t b = extfsDiskBlock s b) :
    extBlockOf t b = extBlockOf s b := by
  have hfind : extfsCacheFind t b = extfsCacheFind s b := by
    unfold extfsCacheFind
    congr 1
    funext i
    rw [(hcache i).1]
  unfold extBlockOf
  rw [hfind]
  cases hf : extfsCacheFind s b with
  | none =>
    apply hdisk
    intro j hj
    have := List.find?_eq_none.mp hf j (List.mem_finRange j)
    simp [hj] at this
  | some i => simp only [(hcache i).2, hinfo]


theorem Shows.flushed (h : Shows V s) (hfit : ExtFits limit s.info) (hl : limit ≤ 2 ^ 32)
    {i : Fin 8} {t : Extfs} (hblock : (s.cache i).block ≠ extNoBlock) (hinfo : t.info = s.info)
    (hdisk : t.disk =
      writeSectors s.disk (s.info.volumeLba + (s.cache i).block * s.info.sectors)
      (s.cache i).data s.info.sectors) (hslot :
      ∀ j, (t.cache j).block = (s.cache j).block ∧ (t.cache j).data = (s.cache j).data)
    (hdirty : ∀ j, j ≠ i → (t.cache j).dirty = (s.cache j).dirty) : Shows V t := by
  have hother : ∀ j, j ≠ i → (s.cache j).block ≠ (s.cache i).block := fun j hj heq =>
    hj (h.cache.unique j i heq (heq ▸ hblock))
  have hwrite : ∀ b, b < s.info.blocksCount → extfsDiskBlock t b =
      if b = (s.cache i).block then trimBlock s.info.blockSize (s.cache i).data else extfsDiskBlock s b :=
    fun b hb => extfsDiskBlock_writeSectors hfit hl hinfo hdisk hb
  refine ⟨hinfo ▸ h.info, ⟨?_, ?_, ?_⟩, ?_⟩
  · intro j hj
    rw [(hslot j).1] at hj ⊢
    rw [hinfo]
    exact h.cache.inside j hj
  · intro j k hjk hj
    rw [(hslot j).1, (hslot k).1] at hjk
    rw [(hslot j).1] at hj
    exact h.cache.unique j k hjk hj
  · intro j hclean hj
    rw [(hslot j).1] at hj
    rw [(hslot j).1, (hslot j).2, hinfo, hwrite _ (h.cache.inside j hj)]
    by_cases hji : j = i
    · rw [hji, if_pos rfl]
    · rw [if_neg (hother j hji)]
      exact h.cache.clean j (hdirty j hji ▸ hclean) hj
  · intro b hb
    rw [hinfo] at hb
    refine (extBlockOf_congr hinfo hslot fun hnone => ?_).trans (h.blocks b hb)
    rw [hwrite b hb, if_neg fun heq => hnone i heq.symm]

theorem Shows.flush (h : Shows V s) (hfit : ExtFits limit s.info) (hl : limit ≤ 2 ^ 32) {i : Fin 8}
    {t : Extfs} (hrun : extfsCacheFlushIdx s i = some t) :
    Shows V t ∧ t.info = s.info ∧ (∀ j, (t.cache j).block = (s.cache j).block) ∧
      ((t.cache i).block ≠ extNoBlock → (t.cache i).dirty = false) := by
  unfold extfsCacheFlushIdx at hrun
  split at hrun
  · next hdirty =>
      have hblock : (s.cache i).block ≠ extNoBlock := by
        simp only [Bool.and_eq_true, bne_iff_ne] at hdirty
        exact hdirty.2
      obtain ⟨u, hflush, rfl⟩ := Option.map_eq_some_iff.mp hrun
      unfold extfsFlushBlock at hflush
      simp only at hflush
      split at hflush
      · simp at hflush
      · obtain rfl := Option.some.inj hflush
        have hslot : ∀ j, (Function.update s.cache i { s.cache i with dirty := false } j).block =
            (s.cache j).block ∧
            (Function.update s.cache i { s.cache i with dirty := false } j).data = (s.cache j).data := by
          intro j
          by_cases hj : j = i
          · subst hj
            simp
          · simp [Function.update_of_ne hj]
        refine ⟨h.flushed hfit hl hblock rfl rfl hslot fun j hj => ?_, rfl, fun j => (hslot j).1,
          fun _ => by simp⟩
        simp [Function.update_of_ne hj]
  · next hdirty =>
      obtain rfl := Option.some.inj hrun
      refine ⟨h, rfl, fun _ => rfl, fun hne => ?_⟩
      simpa [hne] using hdirty

theorem Shows.setSlot (h : Shows V s) (hfit : ExtFits limit s.info) (i : Fin 8) (data : ExtBlock)
    (dirty : Bool) (hold : (s.cache i).block = b ∨ ((s.cache i).block ≠ extNoBlock → (s.cache i).dirty = false))
    (hfree : ∀ j, j ≠ i → (s.cache j).block ≠ b) (hb : b < s.info.blocksCount)
    (hclean : dirty = false → trimBlock s.info.blockSize data = extfsDiskBlock s b) :
    Shows ⟨V.info, Function.update V.view b (trimBlock s.info.blockSize data)⟩
      (extfsSetSlot s i b data dirty) := by
  have hne : b ≠ extNoBlock := hfit.ne_noBlock hb
  have hinv : CacheInv (extfsSetSlot s i b data dirty) := by
    refine ⟨?_, ?_, ?_⟩
    · intro j hj
      by_cases hji : j = i
      · subst hji
        simpa [extfsSetSlot] using hb
      · simp only [extfsSetSlot, Function.update_of_ne hji] at hj ⊢
        exact h.cache.inside j hj
    · intro j k hjk hj
      by_cases hji : j = i <;> by_cases hki : k = i
      · rw [hji, hki]
      · subst hji
        simp only [extfsSetSlot, Function.update_self, Function.update_of_ne hki] at hjk
        exact absurd hjk.symm (hfree k hki)
      · subst hki
        simp only [extfsSetSlot, Function.update_self, Function.update_of_ne hji] at hjk
        exact absurd hjk (hfree j hji)
      · simp only [extfsSetSlot, Function.update_of_ne hji, Function.update_of_ne hki] at hjk hj
        exact h.cache.unique j k hjk hj
    · intro j hd hj
      by_cases hji : j = i
      · subst hji
        simp only [extfsSetSlot, Function.update_self] at hd ⊢
        exact hclean hd
      · simp only [extfsSetSlot, Function.update_of_ne hji] at hd hj ⊢
        exact h.cache.clean j hd hj
  refine ⟨h.info, hinv, fun c hc => ?_⟩
  have hcne : c ≠ extNoBlock := hfit.ne_noBlock hc
  show extBlockOf (extfsSetSlot s i b data dirty) c = Function.update V.view b _ c
  by_cases hcb : c = b
  · subst hcb
    rw [(extBlockOf_of_slot hinv (i := i) (by simp [extfsSetSlot]) hcne).2, Function.update_self]
    simp [extfsSetSlot]
  · rw [Function.update_of_ne hcb, ← h.blocks c hc]
    by_cases hslot : ∃ j, (s.cache j).block = c
    · obtain ⟨j, hj⟩ := hslot
      rw [(extBlockOf_of_slot h.cache hj hcne).2]
      by_cases hji : j = i
      · -- the block that has to leave is on the disk
        subst hji
        have hgone : ∀ k, ((extfsSetSlot s j b data dirty).cache k).block ≠ c := by
          intro k hk
          by_cases hkj : k = j
          · subst hkj
            simp only [extfsSetSlot, Function.update_self] at hk
            exact hcb hk.symm
          · simp only [extfsSetSlot, Function.update_of_ne hkj] at hk
            exact hkj (h.cache.unique k j (hk.trans hj.symm) (hk ▸ hcne))
        have hdirty : (s.cache j).dirty = false := by
          rcases hold with hold | hold
          · exact absurd (hj.symm.trans hold) hcb
          · exact hold (hj ▸ hcne)
        rw [(extBlockOf_of_forall_ne hgone).2, h.cache.clean j hdirty (hj ▸ hcne), hj]
        rfl
      · have hk : ((extfsSetSlot s i b data dirty).cache j).block = c := by
          simpa [extfsSetSlot, Function.update_of_ne hji] using hj
        rw [(extBlockOf_of_slot hinv hk hcne).2]
        simp [extfsSetSlot, Function.update_of_ne hji]
    · have hnone : ∀ j, (s.cache j).block ≠ c := fun j hj => hslot ⟨j, hj⟩
      have hnone' : ∀ j, ((extfsSetSlot s i b data dirty).cache j).block ≠ c := by
        intro j hj
        by_cases hji : j = i
        · subst hji
          simp only [extfsSetSlot, Function.update_self] at hj
          exact hcb hj.symm
        · simp only [extfsSetSlot, Function.update_of_ne hji] at hj
          exact hnone j hj
      rw [(extBlockOf_of_forall_ne hnone').2, (extBlockOf_of_forall_ne hnone).2]
      rfl

theorem Shows.fits (h : Shows V s) (hfit : ExtFits limit V.info) : ExtFits limit s.info := by
  have hinfo := h.info
  obtain ⟨hsize, hcount, hfits⟩ := hfit
  have hsize' : s.info.blockSize = V.info.blockSize := (congrArg ExtfsInfo.blockSize hinfo :)
  have hcount' : s.info.blocksCount = V.info.blocksCount := (congrArg ExtfsInfo.blocksCount hinfo :)
  have hlba : s.info.volumeLba = V.info.volumeLba := (congrArg ExtfsInfo.volumeLba hinfo :)
  unfold ExtfsInfo.sectors at hfits
  refine ⟨hsize' ▸ hsize, hcount' ▸ hcount, ?_⟩
  unfold ExtfsInfo.sectors
  rw [hsize', hcount', hlba]
  exact hfits

theorem Shows.of_eq (h : Shows V s) {t : Extfs} (hdisk : t.disk = s.disk)
    (hinfo : extGeometry t.info = extGeometry s.info) (hcache : t.cache = s.cache) : Shows V t := by
  have hsize : t.info.blockSize = s.info.blockSize := (congrArg ExtfsInfo.blockSize hinfo :)
  have hcount : t.info.blocksCount = s.info.blocksCount := (congrArg ExtfsInfo.blocksCount hinfo :)
  have hlba : t.info.volumeLba = s.info.volumeLba := (congrArg ExtfsInfo.volumeLba hinfo :)
  have hblock : ∀ b, extfsDiskBlock t b = extfsDiskBlock s b := fun b => by
    simp only [extfsDiskBlock, ExtfsInfo.sectors, hsize, hlba, hdisk]
  refine ⟨hinfo.trans h.info, ⟨?_, ?_, ?_⟩, ?_⟩
  · rw [hcache, hcount]
    exact h.cache.inside
  · rw [hcache]
    exact h.cache.unique
  · simp only [hcache, hsize, hblock]
    exact h.cache.clean
  · intro b hb
    rw [← h.blocks b (hcount ▸ hb)]
    simp only [extBlockOf, extfsCacheFind, hcache, hsize, hblock]

theorem Shows.count (h : Shows V s) : s.info.blocksCount = V.info.blocksCount :=
  (congrArg ExtfsInfo.blocksCount h.info :)

theorem Shows.blockSize (h : Shows V s) : s.info.blockSize = V.info.blockSize :=
  (congrArg ExtfsInfo.blockSize h.info :)

theorem readBlockCached_spec (h : Shows V s) (hfit : ExtFits limit V.info) (hl : limit ≤ 2 ^ 32)
    (hb : b < V.info.blocksCount) :
    (extfsReadBlockCached b s).1 = V.view b ∧ Shows V (extfsReadBlockCached b s).2 := by
  have hfit := h.fits hfit
  have hb' : b < s.info.blocksCount := h.count ▸ hb
  have hview := h.blocks b hb'
  have hne := hfit.ne_noBlock hb'
  by_cases hslot : ∃ i, (s.cache i).block = b
  · obtain ⟨i, hi⟩ := hslot
    obtain ⟨hfind, hof⟩ := extBlockOf_of_slot h.cache hi hne
    have hset := h.setSlot hfit i (b := b) (s.cache i).data (s.cache i).dirty (.inl hi)
      (fun j hj heq => hj (h.cache.unique j i (heq.trans hi.symm) (heq ▸ hne))) hb'
      (fun hd => hi ▸ h.cache.clean i hd (hi ▸ hne))
    rw [← hof, hview, Function.update_eq_self] at hset
    unfold extfsReadBlockCached
    simp only [hfind, hi]
    exact ⟨hof ▸ hview, hset⟩
  · have hnone : ∀ i, (s.cache i).block ≠ b := fun i hi => hslot ⟨i, hi⟩
    obtain ⟨hfind, hof⟩ := extBlockOf_of_forall_ne hnone
    have hdisk : extfsDiskBlock s b = V.view b := hof ▸ hview
    unfold extfsReadBlockCached
    simp only [hfind]
    cases hflush : extfsCacheFlushIdx s (extfsCacheFindVictim s) with
    | none => exact ⟨hdisk, h⟩
    | some t =>
      obtain ⟨ht, hinfo, hblocks, hclean⟩ := h.flush hfit hl hflush
      have hnone' : ∀ i, (t.cache i).block ≠ b := fun i => hblocks i ▸ hnone i
      have htdisk : extfsDiskBlock t b = V.view b :=
        (extBlockOf_of_forall_ne hnone').2 ▸ ht.blocks b (hinfo ▸ hb')
      have htrim : trimBlock t.info.blockSize (extfsDiskBlock s b) = V.view b := by
        rw [hinfo, trimBlock_extfsDiskBlock hfit hl hb', hdisk]
      have hset := ht.setSlot (hinfo ▸ hfit) (extfsCacheFindVictim s) (b := b)
        (trimBlock t.info.blockSize (extfsDiskBlock s b)) false (.inr hclean)
        (fun j _ => hnone' j) (hinfo ▸ hb') (fun _ => by rw [trimBlock_trimBlock, htrim, htdisk])
      rw [trimBlock_trimBlock, htrim, Function.update_eq_self] at hset
      simp only [htrim]
      exact ⟨hdisk, hset⟩

def ShowsBuf (V : ExtVolume) (buffer : ExtBlock) (s : Extfs) : Prop := Shows V s ∧ s.block = buffer

theorem readBlock_yields (h : Shows V s) (hfit : ExtFits limit V.info) (hl : limit ≤ 2 ^ 32)
    (hb : b < V.info.blocksCount) :
    YieldsAt (ShowsBuf V (V.view b)) (extfsReadBlock b) s (some (V.view b)) := by
  obtain ⟨hread, hshows⟩ := readBlockCached_spec h hfit hl hb
  rintro a ⟨⟩
  refine ⟨{ (extfsReadBlockCached b s).2 with block := V.view b }, ?_, hshows.of_eq rfl rfl rfl,
    rfl⟩
  unfold extfsReadBlock
  simp only [hread]

theorem readInodeBuf_yields (h : Shows V s) (hfit : ExtFits limit V.info) (hl : limit ≤ 2 ^ 32)
    (hb : b < V.info.blocksCount) :
    YieldsAt (Shows V) (extfsReadInodeBuf b) s (some (V.view b)) := by
  obtain ⟨hread, hshows⟩ := readBlockCached_spec h hfit hl hb
  rintro a ⟨⟩
  refine ⟨{ (extfsReadBlockCached b s).2 with inodeBuf := V.view b }, ?_, hshows.of_eq rfl rfl rfl⟩
  unfold extfsReadInodeBuf
  simp only [hread]

end

end Monios.Analysis
