import Monios.Analysis.ExtReads
import Monios.Analysis.FatReads
import Monios.Analysis.LogRecovery

/-!
# Switching between mounts

`switch_to_mount` runs `fat32_init` or `extfs_init` again, and neither of them only looks:
`fat32_init` replays the log of the volume and writes a new log header, and `extfs_init` drops the
blocks in its cache, the dirty ones as well.
-/

set_option autoImplicit false

namespace Monios.Analysis

open Monios.Library Monios.Model

def mountHint (v : Vfs) (m : MountPoint) : Int := fileMountPartitionHint v m.partition

def mountDisk (v : Vfs) (m : MountPoint) : Nat := v.device (fileBlockdevHint v m.blockdevIndex)

def fatVolume (v : Vfs) (m : MountPoint) : Fat32 :=
  (fat32Init (mountHint v m) (Fat32.unmounted (v.disks (mountDisk v m)))).2

def extMounted (v : Vfs) (m : MountPoint) : Extfs :=
  (extfsInit (mountHint v m) (Extfs.unmounted (v.disks (mountDisk v m)))).2

def extVolume (v : Vfs) (m : MountPoint) : ExtVolume :=
  ⟨(extMounted v m).info, extfsDiskBlock (extMounted v m)⟩

def InUse (v : Vfs) (type : FsType) (m : MountPoint) : Prop :=
  m.mounted = true ∧ m.fsType = type ∧ ∃ i, v.mounts i = m

def LogHeader (v : Vfs) (disk lba : Nat) : Prop :=
  ∃ m, InUse v .fat32 m ∧ mountDisk v m = disk ∧ (fatVolume v m).walOn = true ∧ lba = (fatVolume v m).walLogLba

def logState (v : Vfs) (m : MountPoint) : Fat32 :=
  beforeRecover (fatVolume v m).volumeLba (fatVolume v m).bpb (Fat32.unmounted (v.disks (mountDisk v m)))

structure LogSettled (v : Vfs) (m : MountPoint) : Prop where
  own : ∀ k, 0 < k → k < walSectors → ¬ LogHeader v (mountDisk v m) (w32 ((logState v m).walLogLba + k))
  count : replayCount (logState v m) ≤ 170
  targets : ∀ i, i < replayCount (logState v m) → ∀ w, walReplayWrite (logState v m) i = some w →
    ¬ LogSector (logState v m).walLogLba w.1
  last : ∀ x image, lastWrite (replayWrites (logState v m) (replayCount (logState v m))) x = some image →
    image = v.disks (mountDisk v m) x

structure FatMountOk (v : Vfs) (m : MountPoint) : Prop where
  accepted : (fat32Init (mountHint v m) (Fat32.unmounted (v.disks (mountDisk v m)))).1 = true
  boot : ∀ x ∈ bootSectors (v.disks (mountDisk v m)) (mountHint v m), ¬ LogHeader v (mountDisk v m) x
  fat : ∀ c, fat32InRange (fatVolume v m) c = true → ¬ LogHeader v (mountDisk v m) (fat32FatSector (fatVolume v m) 0 c)
  data : ∀ c, fat32InRange (fatVolume v m) c = true → ∀ lba ∈ clusterLbas (fatVolume v m) c,
    ¬ LogHeader v (mountDisk v m) lba
  log : (fatVolume v m).walOn = true → LogSettled v m
  inside : ChainsInside (fatVolume v m)

def superSectors (disk : Nat → Sector) (hint : Int) : List Nat :=
  if 0 ≤ hint then [w32 (hint.toNat + 2), w32 (hint.toNat + 3)]
  else 0 :: 2 :: 3 :: (List.range 4).flatMap fun i =>
    [w32 ((disk 0).u32 (446 + i * 16 + 8) + 2), w32 ((disk 0).u32 (446 + i * 16 + 8) + 3)]

structure ExtMountOk (v : Vfs) (m : MountPoint) : Prop where
  accepted : (extfsInit (mountHint v m) (Extfs.unmounted (v.disks (mountDisk v m)))).1 = true
  super : ∀ x ∈ superSectors (v.disks (mountDisk v m)) (mountHint v m), ¬ LogHeader v (mountDisk v m) x
  fits : (extVolume v m).info.volumeLba + (extVolume v m).info.blocksCount * (extVolume v m).info.sectors ≤ 2 ^ 32
  data : ∀ x, (extVolume v m).info.volumeLba ≤ x →
    x < (extVolume v m).info.volumeLba + (extVolume v m).info.blocksCount * (extVolume v m).info.sectors →
    ¬ LogHeader v (mountDisk v m) x

def IsCurrent (v : Vfs) (m : MountPoint) : Prop :=
  v.currentFs = m.fsType ∧ v.currentMountPartition = m.partition ∧ v.currentBlockdev = m.blockdevIndex

structure Settled (v : Vfs) : Prop where
  device : ∀ i j, (v.mounts i).mounted = true → (v.mounts j).mounted = true → (v.mounts i).blockdevIndex < 0 →
    v.device (v.mounts j).blockdevIndex = mountDisk v (v.mounts i)
  fat : ∀ m, InUse v .fat32 m → FatMountOk v m
  ext : ∀ m, InUse v .extfs m → ExtMountOk v m
  fatCurrent : ∀ m, InUse v .fat32 m → IsCurrent v m →
    v.fatDevice = mountDisk v m ∧ Mounted (mountHint v m) v.fatState ∧ CacheOk v.fatState ∧
      ReadCacheOk v.fatState v.fatState
  extCurrent : ∀ m, InUse v .extfs m → IsCurrent v m → v.extDevice = mountDisk v m ∧ Shows (extVolume v m) v.extState

def switches (other : FsType → Vfs → Bool) (l : List (Fin 8)) (v : Vfs) : Vfs :=
  l.foldl (fun v i => (switchToMount other i v).2) v

def Drift (v : Vfs) (d : Nat) (disk : Nat → Sector) : Prop :=
  ∀ x, disk x = v.disks d x ∨ LogHeader v d x ∧ disk x = walHeader walClean 0 170

section

variable {v w : Vfs} {m : MountPoint} {d : Nat} {disk : Nat → Sector} {s t : Fat32}

/-- Only the header of the log may differ on the disk. -/
theorem Drift.eq_of_not_header (h : Drift v d disk) {x : Nat} (hx : ¬ LogHeader v d x) :
    disk x = v.disks d x := by
  rcases h x with h | h
  · exact h
  · exact absurd h.1 hx

/-- The volume of a mount point is the one that `fat32_init` finds on its disk. -/
theorem fatVolume_spec (hok : FatMountOk v m) :
    fat32Locate (v.disks (mountDisk v m)) (mountHint v m) =
      ((fatVolume v m).volumeLba, (fatVolume v m).bpb, true) ∧
      (fatVolume v m).bpb.dataStart < (fatVolume v m).bpb.totalSectors ∧
      (fatVolume v m).ready = true ∧
      (fatVolume v m).fatLba =
      w32 ((fatVolume v m).volumeLba + (fatVolume v m).bpb.reservedSectorCount) ∧
      (fatVolume v m).dataLba = w32 ((fatVolume v m).volumeLba + (fatVolume v m).bpb.dataStart) ∧
      (fatVolume v m).clusterCount = dataClusters (fatVolume v m).bpb ∧
      (fatVolume v m).walOn = decide (HasLog (fatVolume v m).bpb) ∧ (HasLog (fatVolume v m).bpb →
        (fatVolume v m).walLogLba = logStart (fatVolume v m).volumeLba (fatVolume v m).bpb) := by
  obtain ⟨lba, bpb, hloc, hroom⟩ := located_of_fat32Init (Prod.ext hok.accepted (Eq.refl (fatVolume v m)))
  obtain ⟨s, hs, -, hlba, hbpb, hready, hfat, hdata, hcount, hon, hlog, -⟩ :=
    fat32Init_of_located hloc hroom
  have hvol : fatVolume v m = s := congrArg Prod.snd hs
  rw [hvol]
  subst hlba hbpb
  exact ⟨hloc, hroom, hready, hfat, hdata, hcount, hon, fun h => (hlog h).1⟩

/-- A clean header of the log leaves nothing to replay. -/
theorem replayCount_clean (hhdr : s.disk s.walLogLba = walHeader walClean 0 170) :
    replayCount s = 0 := by
  have hnext : (walHeader walClean 0 170).u32 12 = 0 := walFields_u32_12 (by decide)
  have hlimit : walReplayLimit s = 0 := by
    simp only [walReplayLimit, ataReadSector, hhdr, hnext]
    exact Nat.zero_min _
  unfold replayCount
  rw [hlimit]
  exact ite_self 0

/-- The number of records to replay depends on the header. -/
theorem replayCount_congr (hlog : t.walLogLba = s.walLogLba) (hmax : t.walMax = s.walMax)
    (hhdr : t.disk s.walLogLba = s.disk s.walLogLba) : replayCount t = replayCount s := by
  unfold replayCount walReplayLimit ataReadSector
  rw [hlog, hhdr, hmax]

/-- Mounting writes the header of the log only. -/
theorem mountedDisk_drift (hm : InUse v .fat32 m) (hok : FatMountOk v m)
    (hs : Drift v (mountDisk v m) s.disk) :
    Drift v (mountDisk v m) (mountedDisk (fatVolume v m).volumeLba (fatVolume v m).bpb s) := by
  obtain ⟨-, -, -, -, -, -, hon, hlba⟩ := fatVolume_spec hok
  unfold mountedDisk
  split
  · next hlog =>
      have hwal : (fatVolume v m).walOn = true := by rw [hon, decide_eq_true hlog]
      have hsettled := hok.log hwal
      intro x
      by_cases hx : x = logStart (fatVolume v m).volumeLba (fatVolume v m).bpb
      · right
        rw [hx, Function.update_self]
        exact ⟨⟨m, hm, rfl, hwal, (hlba hlog).symm⟩, rfl⟩
      · rw [Function.update_of_ne hx]
        -- the header is still the old one, or there is nothing left to replay
        rcases hs (logStart (fatVolume v m).volumeLba (fatVolume v m).bpb) with hhdr | ⟨-, hhdr⟩
        · have hcount : replayCount (beforeRecover (fatVolume v m).volumeLba (fatVolume v m).bpb s) =
              replayCount (logState v m) := replayCount_congr rfl rfl hhdr
          have hrec : ∀ i, i < 170 → walReplayWrite (beforeRecover (fatVolume v m).volumeLba (fatVolume v m).bpb s) i =
                walReplayWrite (logState v m) i := by
            intro i hi
            refine walReplayWrite_congr rfl fun j hj => ?_
            exact hs.eq_of_not_header (hsettled.own _ (by omega) (by unfold walSectors; omega))
          have hle := hsettled.count
          rw [replayDisk_eq _ (hcount ▸ hle) fun i hi p hp =>
              hsettled.targets i (hcount ▸ hi) p (hrec i (by omega) ▸ hp),
            hcount, replayWrites_congr fun i hi => hrec i (by omega), applyWrites_eq_lastWrite]
          cases hlast : lastWrite (replayWrites (logState v m) (replayCount (logState v m))) x with
          | none => exact hs x
          | some image => exact .inl (hsettled.last x image hlast)
        · have hzero : replayCount (beforeRecover (fatVolume v m).volumeLba (fatVolume v m).bpb s) = 0 :=
            replayCount_clean hhdr
          unfold replayDisk
          rw [hzero]
          exact hs x
  · exact hs

structure FatDriver (v : Vfs) (m : MountPoint) (s : Fat32) : Prop where
  bpb : s.bpb = (fatVolume v m).bpb
  fatLba : s.fatLba = (fatVolume v m).fatLba
  dataLba : s.dataLba = (fatVolume v m).dataLba
  clusterCount : s.clusterCount = (fatVolume v m).clusterCount
  ready : s.ready = true
  drift : Drift v (mountDisk v m) s.disk
  cache : CacheOk s
  readCache : ReadCacheOk s s

/-- `fat32_init` brings the driver back to the volume of the mount point. -/
theorem fatDriver_init (hm : InUse v .fat32 m) (hok : FatMountOk v m)
    (hs : Drift v (mountDisk v m) s.disk) :
    ∃ t, fat32Init (mountHint v m) s = (true, t) ∧ FatDriver v m t := by
  obtain ⟨hloc, hroom, -, hfat, hdata, hcount, -, -⟩ := fatVolume_spec hok
  have hloc' := (fat32Locate_congr fun x hx => hs.eq_of_not_header (hok.boot x hx)).trans hloc
  obtain ⟨t, ht, hdisk, -, hbpb, hready, hfat', hdata', hcount', -, -, -, hcache, hread⟩ :=
    fat32Init_of_located hloc' hroom
  refine ⟨t, ht, hbpb, hfat'.trans hfat.symm, hdata'.trans hdata.symm, hcount'.trans hcount.symm,
    hready, ?_, ?_, ?_⟩
  · rw [hdisk]
    exact mountedDisk_drift hm hok hs
  · intro lba sector h
    simp [hcache] at h
  · intro h
    simp [hread] at h

theorem fatDriver_fatVolume (hm : InUse v .fat32 m) (hok : FatMountOk v m) :
    FatDriver v m (fatVolume v m) := by
  obtain ⟨t, ht, hdriver⟩ := fatDriver_init (s := Fat32.unmounted (v.disks (mountDisk v m))) hm hok fun x => .inl rfl
  have hvol : fatVolume v m = t := congrArg Prod.snd ht
  exact hvol ▸ hdriver

/-- A driver that is mounted and has nothing in its caches stands for the volume. -/
theorem fatDriver_of_mounted (hok : FatMountOk v m) (hmounted : Mounted (mountHint v m) s)
    (hdisk : s.disk = v.disks (mountDisk v m)) (hcache : CacheOk s) (hread : ReadCacheOk s s) :
    FatDriver v m s := by
  obtain ⟨hloc, -, -, hfat, hdata, hcount, -, -⟩ := fatVolume_spec hok
  have hsame := hmounted.located
  rw [hdisk, hloc, Prod.mk.injEq, Prod.mk.injEq] at hsame
  obtain ⟨hlba, hbpb, -⟩ := hsame
  refine ⟨hbpb.symm, ?_, ?_, ?_, hmounted.ready, fun x => .inl (by rw [hdisk]), hcache, hread⟩
  · rw [hmounted.fatLba, hfat, hlba, hbpb]
  · rw [hmounted.dataLba, hdata, hlba, hbpb]
  · rw [hmounted.clusterCount, hcount, hbpb]

/-- A read by the driver is a read of the volume. -/
theorem FatDriver.read_eq (h : FatDriver v m s) (hm : InUse v .fat32 m) (hok : FatMountOk v m)
    (fuel : Nat) (op : ReadOp) :
    (fat32Read fuel op s).map Prod.fst = (fat32Read fuel op (fatVolume v m)).map Prod.fst := by
  have hvol := fatDriver_fatVolume hm hok
  have hsame : SameFiles (fatVolume v m) s := by
    refine ⟨h.bpb, h.fatLba, h.dataLba, h.clusterCount, h.ready.trans hvol.ready.symm,
      fun c hc => ?_,
      fun c hc lba hlba => ?_⟩
    · rw [h.drift.eq_of_not_header (hok.fat c hc), hvol.drift.eq_of_not_header (hok.fat c hc)]
    · rw [h.drift.eq_of_not_header (hok.data c hc lba hlba),
        hvol.drift.eq_of_not_header (hok.data c hc lba hlba)]
  exact (fat32Read_eq hsame hok.inside hvol.cache h.cache hvol.readCache h.readCache fuel op).symm

def superAt (disk : Nat → Sector) (lba : Nat) : Option ExtfsInfo :=
  let super := extfsReadSuper disk lba
  if super.u16 56 = 0xEF53 ∧ (ExtfsInfo.ofSuper lba super).superOk super = true then
    some (ExtfsInfo.ofSuper lba super)
  else none

def superInTable (disk : Nat → Sector) (l : List Nat) : Option ExtfsInfo :=
  l.findSome? fun i =>
    if (disk 0).byte (446 + i * 16 + 4) == 0x83 && (disk 0).u32 (446 + i * 16 + 8) != 0 then
      superAt disk ((disk 0).u32 (446 + i * 16 + 8))
    else none

def extLocate (disk : Nat → Sector) (hint : Int) : Option ExtfsInfo :=
  if 0 ≤ hint then superAt disk hint.toNat
  else
    match superAt disk 0 with
    | some info => some info
    | none => if (disk 0).u16 510 = 0xAA55 then superInTable disk (List.range 4) else none

def extReady (e : Extfs) (info : ExtfsInfo) : Extfs := extfsCacheInit { e with info := info }

variable {e : Extfs}

/-- The two ways a search for a volume ends: with the fields of the super block and an empty cache,
or with nothing but other fields. -/
def Located (e : Extfs) (found : Option ExtfsInfo) (r : Bool × Extfs) : Prop :=
  match found with
  | some info => r = (true, extReady e info)
  | none => ∃ info, r = (false, { e with info := info })

theorem Located.of_info {info : ExtfsInfo} {found : Option ExtfsInfo} {r : Bool × Extfs}
    (h : Located { e with info := info } found r) : Located e found r := by
  cases found with
  | none => exact h
  | some info => exact h

/-- The try of one place finds the superblock there. -/
theorem extfsTryVolume_located (e : Extfs) (lba : Nat) :
    Located e (superAt e.disk lba) (extfsTryVolume lba e) := by
  unfold Located superAt extfsTryVolume
  by_cases hmagic : (extfsReadSuper e.disk lba).u16 56 = 0xEF53
  · by_cases hok : (ExtfsInfo.ofSuper lba (extfsReadSuper e.disk lba)).superOk (extfsReadSuper e.disk lba) = true
    · simp only [hmagic, hok, and_self, if_true]
      rfl
    · simp only [hmagic, hok, if_true]
      exact ⟨_, rfl⟩
  · simp only [hmagic, false_and, if_false]
    exact ⟨e.info, rfl⟩

/-- The try of the partitions finds the first superblock among them. -/
theorem extfsTryPartitions_located (e : Extfs) (l : List Nat) (info : ExtfsInfo) :
    Located e (superInTable e.disk l)
      (extfsTryPartitions (e.disk 0) l { e with info := info }) := by
  induction l generalizing info with
  | nil => exact ⟨info, rfl⟩
  | cons i l ih =>
    have htry := extfsTryVolume_located { e with info := info } ((e.disk 0).u32 (446 + i * 16 + 8))
    unfold superInTable extfsTryPartitions
    rw [List.findSome?_cons]
    by_cases hpart : ((e.disk 0).byte (446 + i * 16 + 4) == 0x83 && (e.disk 0).u32 (446 + i * 16 + 8) != 0) = true
    · simp only [if_pos hpart]
      cases hfound : superAt e.disk ((e.disk 0).u32 (446 + i * 16 + 8)) with
      | some found =>
        simp only [Located, hfound] at htry ⊢
        rw [htry]
        rfl
      | none =>
        simp only [Located, hfound] at htry
        obtain ⟨info', htry⟩ := htry
        rw [htry]
        exact ih info'
    · simp only [if_neg hpart]
      exact ih info

/-- `extfs_init` finds the superblock that the disk has. -/
theorem extfsInit_located (e : Extfs) (hint : Int) :
    Located e (extLocate e.disk hint) (extfsInit hint e) := by
  unfold extLocate extfsInit
  by_cases hhint : 0 ≤ hint
  · simp only [if_pos hhint]
    exact (extfsTryVolume_located { e with info := ExtfsInfo.zero } hint.toNat).of_info
  · simp only [if_neg hhint]
    have htry := extfsTryVolume_located { e with info := ExtfsInfo.zero } 0
    cases hfound : superAt e.disk 0 with
    | some info =>
      simp only [Located, hfound] at htry ⊢
      rw [htry]
      rfl
    | none =>
      simp only [Located, hfound] at htry
      obtain ⟨info, htry⟩ := htry
      rw [htry]
      dsimp only
      split
      · exact extfsTryPartitions_located e _ info
      · exact ⟨info, rfl⟩

theorem superAt_congr {d₁ d₂ : Nat → Sector} (lba : Nat)
    (h2 : d₂ (w32 (lba + 2)) = d₁ (w32 (lba + 2))) (h3 : d₂ (w32 (lba + 3)) = d₁ (w32 (lba + 3))) :
    superAt d₂ lba = superAt d₁ lba := by
  have hsuper : extfsReadSuper d₂ lba = extfsReadSuper d₁ lba := by
    funext i
    unfold extfsReadSuper
    by_cases hi : i.val < 512
    · rw [Nat.div_eq_of_lt hi, Nat.add_zero, h2]
    · have hdiv : i.val / 512 = 1 := by omega
      rw [hdiv, h3]
  unfold superAt
  rw [hsuper]

/-- The search depends on the sectors of the superblocks only. -/
theorem extLocate_congr {d₁ d₂ : Nat → Sector} {hint : Int}
    (h : ∀ x ∈ superSectors d₁ hint, d₂ x = d₁ x) :
    extLocate d₂ hint = extLocate d₁ hint := by
  unfold extLocate
  by_cases hhint : 0 ≤ hint
  · simp only [superSectors, if_pos hhint, List.mem_cons, List.not_mem_nil, or_false,
      forall_eq_or_imp, forall_eq] at h
    rw [if_pos hhint, if_pos hhint, superAt_congr _ h.1 h.2]
  · simp only [superSectors, if_neg hhint, List.mem_cons, forall_eq_or_imp] at h
    obtain ⟨h0, h2, h3, htable⟩ := h
    have hpart : superInTable d₂ (List.range 4) = superInTable d₁ (List.range 4) := by
      unfold superInTable
      generalize List.range 4 = l at htable
      induction l with
      | nil => rfl
      | cons i l ih =>
        simp only [List.flatMap_cons, List.mem_append, List.mem_cons, List.not_mem_nil, or_false,
          or_imp,
          forall_and, forall_eq] at htable
        rw [List.findSome?_cons, List.findSome?_cons, ih htable.2, h0,
          superAt_congr _ htable.1.1 htable.1.2]
    rw [if_neg hhint, if_neg hhint, superAt_congr 0 h2 h3, hpart, h0]

/-- A superblock that is accepted has one of three block sizes. -/
theorem superAt_geometry {lba : Nat} {info : ExtfsInfo} (h : superAt disk lba = some info) :
    (info.blockSize = 1024 ∨ info.blockSize = 2048 ∨ info.blockSize = 4096) ∧
      info.blocksCount ≤ extNoBlock := by
  unfold superAt at h
  simp only at h
  split at h
  · next hok =>
      obtain rfl := Option.some.inj h
      have hlog : (extfsReadSuper disk lba).u32 24 ≤ 2 := by
        have := hok.2
        simp only [ExtfsInfo.superOk, Bool.and_eq_true, decide_eq_true_eq] at this
        exact this.1.1.1.1.1.1
      constructor
      · simp only [ExtfsInfo.ofSuper]
        have hcases : (extfsReadSuper disk lba).u32 24 = 0 ∨ (extfsReadSuper disk lba).u32 24 = 1 ∨
            (extfsReadSuper disk lba).u32 24 = 2 := by omega
        rcases hcases with h | h | h <;> simp [h]
      · exact Nat.le_of_lt_succ (Block.u32_lt (extfsReadSuper disk lba) 4)
  · simp at h

theorem extLocate_superAt {hint : Int} {info : ExtfsInfo} (h : extLocate disk hint = some info) :
    ∃ lba, superAt disk lba = some info := by
  unfold extLocate at h
  split at h
  · exact ⟨_, h⟩
  · split at h
    · next hfound => exact ⟨0, hfound.trans h⟩
    · split at h
      · obtain ⟨l₁, i, l₂, -, hi, -⟩ := List.findSome?_eq_some_iff.mp h
        split at hi
        · exact ⟨_, hi⟩
        · simp at hi
      · simp at h

/-- The mounted volume of a mount point is the one that is found on its disk. -/
theorem extMounted_eq (hok : ExtMountOk v m) :
    ∃ info, extLocate (v.disks (mountDisk v m)) (mountHint v m) = some info ∧
      extMounted v m = extReady (Extfs.unmounted (v.disks (mountDisk v m))) info := by
  have hloc := extfsInit_located (Extfs.unmounted (v.disks (mountDisk v m))) (mountHint v m)
  cases hfound : extLocate (v.disks (mountDisk v m)) (mountHint v m) with
  | none =>
    have hfound' : extLocate (Extfs.unmounted (v.disks (mountDisk v m))).disk (mountHint v m) =
        none := hfound
    simp only [Located, hfound'] at hloc
    obtain ⟨info, hloc⟩ := hloc
    have := hok.accepted
    simp [hloc] at this
  | some info =>
    have hfound' : extLocate (Extfs.unmounted (v.disks (mountDisk v m))).disk (mountHint v m) =
        some info := hfound
    simp only [Located, hfound'] at hloc
    exact ⟨info, rfl, congrArg Prod.snd hloc⟩

theorem extVolume_fits (hok : ExtMountOk v m) : ExtFits (2 ^ 32) (extVolume v m).info := by
  obtain ⟨info, hloc, hmounted⟩ := extMounted_eq hok
  obtain ⟨lba, hsuper⟩ := extLocate_superAt hloc
  obtain ⟨hsize, hcount⟩ := superAt_geometry hsuper
  have hinfo : (extVolume v m).info = info := by
    simp only [extVolume, hmounted]
    rfl
  exact ⟨hinfo ▸ hsize, hinfo ▸ hcount, hok.fits⟩

/-- `extfs_init` brings the driver back to the volume of the mount point. -/
theorem shows_init (hok : ExtMountOk v m) (hdisk : Drift v (mountDisk v m) e.disk) :
    ∃ f, extfsInit (mountHint v m) e = (true, f) ∧ f.disk = e.disk ∧ Shows (extVolume v m) f := by
  obtain ⟨info, hloc, hmounted⟩ := extMounted_eq hok
  have hfits := extVolume_fits hok
  have hinfo : (extVolume v m).info = info := by
    simp only [extVolume, hmounted]
    rfl
  have hloc' : extLocate e.disk (mountHint v m) = some info :=
    (extLocate_congr fun x hx => hdisk.eq_of_not_header (hok.super x hx)).trans hloc
  have hrun := extfsInit_located e (mountHint v m)
  simp only [Located, hloc'] at hrun
  have hempty : ∀ i, ((extReady e info).cache i).block = extNoBlock := fun i => rfl
  refine ⟨_, hrun, rfl, congrArg extGeometry hinfo.symm, ⟨fun i hi => absurd (hempty i) hi, fun i j _ hi =>
    absurd (hempty i) hi, fun i _ hi => absurd (hempty i) hi⟩, fun b hb => ?_⟩
  have hb' : b < (extVolume v m).info.blocksCount := hinfo ▸ hb
  have hne : b ≠ extNoBlock := by
    have := hfits.count
    omega
  rw [(extBlockOf_of_forall_ne fun i => (hempty i).trans_ne hne.symm).2]
  show extfsDiskBlock (extReady e info) b = extfsDiskBlock (extMounted v m) b
  have hstep := Nat.mul_le_mul_right (extVolume v m).info.sectors hb'
  rw [Nat.succ_mul] at hstep
  have hdata := hok.data
  rw [hmounted]
  apply Block.ext
  intro i hi
  rw [byte_extfsDiskBlock (s := extReady e info) (hinfo ▸ hfits) le_rfl hb hi,
    byte_extfsDiskBlock (s := extReady (Extfs.unmounted _) info) (hinfo ▸ hfits) le_rfl hb hi]
  show (if i < info.blockSize then (e.disk (info.volumeLba + b * info.sectors + i / 512)).byte (i % 512) else 0) =
    if i < info.blockSize then
      (v.disks (mountDisk v m) (info.volumeLba + b * info.sectors + i / 512)).byte (i % 512) else 0
  split
  · next hlt =>
      rw [hinfo] at hdata hstep hfits
      have hsectors : i / 512 < info.sectors := by
        unfold ExtfsInfo.sectors
        rcases hfits.size with h | h | h <;> omega
      rw [hdisk.eq_of_not_header (hdata _ (by omega) (by omega))]
  · rfl

structure SwitchInv (v w : Vfs) : Prop where
  mounts : w.mounts = v.mounts
  device : w.device = v.device
  blockdev : w.currentBlockdev = v.currentBlockdev ∨
    ∃ i, (v.mounts i).mounted = true ∧ w.currentBlockdev = (v.mounts i).blockdevIndex
  drift : ∀ d, Drift v d (w.disks d)
  fat : ∀ m, InUse v .fat32 m → IsCurrent w m → w.fatDevice = mountDisk v m ∧ FatDriver v m w.fatState
  ext : ∀ m, InUse v .extfs m → IsCurrent w m → w.extDevice = mountDisk v m ∧ Shows (extVolume v m) w.extState

/-- A settled machine satisfies the invariant. -/
theorem switchInv_self (h : Settled v) : SwitchInv v v := by
  refine ⟨rfl, rfl, .inl rfl, fun d x => .inl rfl, fun m hm hcur => ?_, h.extCurrent⟩
  obtain ⟨hdev, hmounted, hcache, hread⟩ := h.fatCurrent m hm hcur
  refine ⟨hdev, fatDriver_of_mounted (h.fat m hm) hmounted ?_ hcache hread⟩
  rw [← hdev]
  rfl

theorem SwitchInv.mountHint_eq (hinv : SwitchInv v w) (m : MountPoint) :
    mountHint w m = mountHint v m := by
  unfold mountHint fileMountPartitionHint
  rw [hinv.mounts]

/-- A switch changes no disk of a mount point. -/
theorem SwitchInv.mountDisk_eq (hinv : SwitchInv v w) (h : Settled v) (i : Fin 8)
    (hi : (v.mounts i).mounted = true) :
    mountDisk w (v.mounts i) = mountDisk v (v.mounts i) := by
  have hhint : ∀ u : Vfs, fileBlockdevHint u (v.mounts i).blockdevIndex =
      if 0 ≤ (v.mounts i).blockdevIndex then (v.mounts i).blockdevIndex else u.currentBlockdev := fun u => rfl
  by_cases hdev : 0 ≤ (v.mounts i).blockdevIndex
  · unfold mountDisk
    rw [hhint, hhint, if_pos hdev, if_pos hdev, hinv.device]
  · rcases hinv.blockdev with hcur | ⟨j, hj, hcur⟩
    · unfold mountDisk
      rw [hhint, hhint, if_neg hdev, if_neg hdev, hinv.device, hcur]
    · rw [← h.device i j hi hj (by omega)]
      unfold mountDisk
      rw [hhint, if_neg hdev, hinv.device, hcur]

/-- At most one mount point is current. -/
theorem IsCurrent.eq {m n : MountPoint} (hm : IsCurrent w m) (hn : IsCurrent w n)
    (hmn : m.mounted = n.mounted) :
    m = n := by
  cases m
  cases n
  obtain ⟨h₁, h₂, h₃⟩ := hm
  obtain ⟨h₄, h₅, h₆⟩ := hn
  simp_all

/-- A switch without a driver's work keeps the invariant. -/
theorem SwitchInv.setCurrentMount (hinv : SwitchInv v w) {i : Fin 8}
    (hi : (v.mounts i).mounted = true) (hfat : (v.mounts i).fsType ≠ .fat32)
    (hext : (v.mounts i).fsType ≠ .extfs) :
    SwitchInv v (setCurrentMount (v.mounts i) w) := by
  refine ⟨hinv.mounts, hinv.device, .inr ⟨i, hi, rfl⟩, hinv.drift, fun m hm hcur => ?_,
    fun m hm hcur => ?_⟩
  · exact absurd (hcur.1.trans hm.2.1) hfat
  · exact absurd (hcur.1.trans hm.2.1) hext

theorem isCurrent_setCurrentMount (w : Vfs) (m : MountPoint) : IsCurrent (setCurrentMount m w) m :=
  ⟨rfl, rfl, rfl⟩

theorem setCurrentMount_self (h : IsCurrent w m) : setCurrentMount m w = w := by
  obtain ⟨h₁, h₂, h₃⟩ := h
  unfold setCurrentMount
  rw [← h₁, ← h₂, ← h₃]

/-- A switch to a FAT32 volume keeps the invariant. -/
theorem SwitchInv.fatStep (hinv : SwitchInv v w) (h : Settled v) (other : FsType → Vfs → Bool)
    {i : Fin 8} (hm : InUse v .fat32 (v.mounts i)) :
    ∃ u, switchToMount other i w = (true, u) ∧ SwitchInv v u ∧ IsCurrent u (v.mounts i) := by
  unfold switchToMount
  simp only [hinv.mounts, hm.1, Bool.not_true, Bool.false_eq_true, if_false]
  split
  · next hcur => exact ⟨_, rfl, (setCurrentMount_self hcur).symm ▸ hinv, isCurrent_setCurrentMount _ _⟩
  · have hdisk := hinv.mountDisk_eq h i hm.1
    have hhint := hinv.mountHint_eq (v.mounts i)
    obtain ⟨t, hinit, hdriver⟩ := fatDriver_init (s := { w.fat with disk := w.disks (mountDisk v (v.mounts i)) })
      hm (h.fat _ hm) (hinv.drift _)
    unfold mountDisk at hdisk
    unfold mountHint at hhint
    simp only [fsInitByType, hm.2.1, hdisk, hhint]
    rw [show fat32Init (fileMountPartitionHint v (v.mounts i).partition)
      { w.fat with disk := w.disks (v.device (fileBlockdevHint v (v.mounts i).blockdevIndex)) } = (true, t) from hinit]
    refine ⟨_, rfl, ?_, isCurrent_setCurrentMount _ _⟩
    refine ⟨hinv.mounts, hinv.device, .inr ⟨i, hm.1, rfl⟩, fun d => ?_, fun n hn hcur => ?_,
      fun n hn hcur => ?_⟩
    · show Drift v d (Function.update w.disks (mountDisk v (v.mounts i)) t.disk d)
      by_cases hd : d = mountDisk v (v.mounts i)
      · rw [hd, Function.update_self]
        exact hdriver.drift
      · rw [Function.update_of_ne hd]
        exact hinv.drift d
    · obtain rfl := IsCurrent.eq hcur (isCurrent_setCurrentMount _ _) (hn.1.trans hm.1.symm)
      refine ⟨rfl, ?_⟩
      have hstate : ∀ u : Vfs, u.disks = Function.update w.disks (mountDisk v (v.mounts i)) t.disk → u.fat = t →
          u.fatDevice = mountDisk v (v.mounts i) → u.fatState = t := by
        intro u hdisks hfat hdev
        unfold Vfs.fatState
        rw [hdisks, hfat, hdev, Function.update_self]
      rw [hstate _ rfl rfl rfl]
      exact hdriver
    · exact absurd (hcur.1.symm.trans (isCurrent_setCurrentMount _ _).1) (by rw [hn.2.1, hm.2.1]; decide)

/-- A switch to an ext volume keeps the invariant. -/
theorem SwitchInv.extStep (hinv : SwitchInv v w) (h : Settled v) (other : FsType → Vfs → Bool)
    {i : Fin 8} (hm : InUse v .extfs (v.mounts i)) :
    ∃ u, switchToMount other i w = (true, u) ∧ SwitchInv v u ∧ IsCurrent u (v.mounts i) := by
  unfold switchToMount
  simp only [hinv.mounts, hm.1, Bool.not_true, Bool.false_eq_true, if_false]
  split
  · next hcur => exact ⟨_, rfl, (setCurrentMount_self hcur).symm ▸ hinv, isCurrent_setCurrentMount _ _⟩
  · have hdisk := hinv.mountDisk_eq h i hm.1
    have hhint := hinv.mountHint_eq (v.mounts i)
    obtain ⟨t, hinit, hsame, hshows⟩ := shows_init (e := { w.ext with disk := w.disks (mountDisk v (v.mounts i)) })
      (h.ext _ hm) (hinv.drift _)
    unfold mountDisk at hdisk
    unfold mountHint at hhint
    simp only [fsInitByType, hm.2.1, hdisk, hhint]
    rw [show extfsInit (fileMountPartitionHint v (v.mounts i).partition)
      { w.ext with disk := w.disks (v.device (fileBlockdevHint v (v.mounts i).blockdevIndex)) } = (true, t) from hinit]
    refine ⟨_, rfl, ?_, isCurrent_setCurrentMount _ _⟩
    refine ⟨hinv.mounts, hinv.device, .inr ⟨i, hm.1, rfl⟩, hinv.drift, fun n hn hcur => ?_,
      fun n hn hcur => ?_⟩
    · exact absurd (hcur.1.symm.trans (isCurrent_setCurrentMount _ _).1) (by rw [hn.2.1, hm.2.1]; decide)
    · obtain rfl := IsCurrent.eq hcur (isCurrent_setCurrentMount _ _) (hn.1.trans hm.1.symm)
      exact ⟨rfl, hshows.of_eq hsame.symm rfl rfl⟩

/-- Every switch keeps the invariant. -/
theorem SwitchInv.step (hinv : SwitchInv v w) (h : Settled v) (other : FsType → Vfs → Bool)
    (i : Fin 8) :
    SwitchInv v (switchToMount other i w).2 := by
  by_cases hi : (v.mounts i).mounted = true
  · by_cases hfat : (v.mounts i).fsType = .fat32
    · obtain ⟨u, hu, hinv', -⟩ := hinv.fatStep h other (i := i) ⟨hi, hfat, i, rfl⟩
      rw [hu]
      exact hinv'
    · by_cases hext : (v.mounts i).fsType = .extfs
      · obtain ⟨u, hu, hinv', -⟩ := hinv.extStep h other (i := i) ⟨hi, hext, i, rfl⟩
        rw [hu]
        exact hinv'
      · have hset := hinv.setCurrentMount hi hfat hext
        have hinit : ∀ p b, (fsInitByType other (v.mounts i).fsType p b w).2 = w := by
          intro p b
          unfold fsInitByType
          cases htype : (v.mounts i).fsType <;> simp_all
        unfold switchToMount
        simp only [hinv.mounts, hi, Bool.not_true, Bool.false_eq_true, if_false]
        split
        · exact hset
        · have hsame := hinit (v.mounts i).partition (v.mounts i).blockdevIndex
          split
          · next u hu =>
              rw [hu] at hsame
              exact hsame ▸ hinv
          · next u hu =>
              rw [hu] at hsame
              obtain rfl : u = w := hsame
              exact hset
  · unfold switchToMount
    simp only [hinv.mounts, hi, Bool.not_false, if_true]
    exact hinv

/-- Every sequence of switches keeps the invariant. -/
theorem switchInv_switches (h : Settled v) (other : FsType → Vfs → Bool) (l : List (Fin 8)) :
    SwitchInv v (switches other l v) := by
  unfold switches
  induction l using List.reverseRecOn with
  | nil => exact switchInv_self h
  | append_singleton l i ih =>
    rw [List.foldl_append]
    exact ih.step h other i

/-- A read after switches is the read before them. -/
theorem SwitchInv.fileRead_eq (hinv : SwitchInv v w) (h : Settled v) (other : FsType → Vfs → Bool)
    (fuel : Nat) {i : Fin 8} (hi : (v.mounts i).mounted = true)
    (htype : (v.mounts i).fsType = .fat32 ∨ (v.mounts i).fsType = .extfs) {op : ReadOp}
    (hop : (v.mounts i).fsType = .extfs → (extVolume v (v.mounts i)).read op ≠ none) :
    fileRead other fuel i op w =
      if (v.mounts i).fsType =
      .fat32 then (fat32Read fuel op (fatVolume v (v.mounts i))).map Prod.fst
      else (extVolume v (v.mounts i)).read op := by
  unfold fileRead
  rcases htype with hfat | hext
  · have hm : InUse v .fat32 (v.mounts i) := ⟨hi, hfat, i, rfl⟩
    obtain ⟨u, hu, hinv', hcur⟩ := hinv.fatStep h other hm
    simp only [hu, hcur.1, hfat, if_true]
    exact (hinv'.fat _ hm hcur).2.read_eq hm (h.fat _ hm) fuel op
  · have hm : InUse v .extfs (v.mounts i) := ⟨hi, hext, i, rfl⟩
    obtain ⟨u, hu, hinv', hcur⟩ := hinv.extStep h other hm
    simp only [hu, hcur.1, hext]
    rw [if_neg (by decide)]
    obtain ⟨answer, hanswer⟩ := Option.ne_none_iff_exists'.mp (hop hext)
    obtain ⟨t, ht, -⟩ := extfsRead_yields (extVolume_fits (h.ext _ hm)) (hinv'.ext _ hm hcur).2 op answer hanswer
    rw [ht, hanswer]
    rfl

end

/-- Switching between the mounts does not change what a read on the mount point `i` returns, on a
volume of FAT32 or ext2. -/
def MountTransparent (other : FsType → Vfs → Bool) (v : Vfs) (i : Fin 8) (op : ReadOp) : Prop :=
  ∀ (l : List (Fin 8)) (fuel : Nat), fileRead other fuel i op (switches other l v) = fileRead other fuel i op v

/-- From a settled state, no sequence of switches is noticed by a reader.  On an ext2 volume this is
about the reads that stay on the volume. -/
theorem mountTransparent_of_settled (other : FsType → Vfs → Bool) (v : Vfs) (h : Settled v)
    (i : Fin 8) (htype : (v.mounts i).fsType = .fat32 ∨ (v.mounts i).fsType = .extfs) (op : ReadOp)
    (hop : (v.mounts i).fsType = .extfs → (extVolume v (v.mounts i)).read op ≠ none) :
    MountTransparent other v i op := by
  intro l fuel
  have hinv := switchInv_switches h other l
  by_cases hi : (v.mounts i).mounted = true
  · rw [hinv.fileRead_eq h other fuel hi htype hop, (switchInv_self h).fileRead_eq h other fuel hi htype hop]
  · unfold fileRead switchToMount
    simp only [hinv.mounts, hi, Bool.not_false, if_true]

def tinySuper : Block 1024 :=
  ((((((((Block.zero.patch 0 (le32 16)).patch 4 (le32 64)).patch 12 (le32 57)).patch 16 (le32 4)).patch 24
    (le32 1)).patch 32 (le32 64)).patch 40 (le32 16)).patch 56 (le16 0xEF53)).patch 88 (le16 128)

/-- The blocks of that volume: the descriptors, the two bitmaps, the inodes, the root directory and
the one file `/a`, which holds three bytes. -/
def tinyBlock : Nat → ExtBlock
  | 1 => Block.ofBytes (le32 2 ++ le32 3 ++ le32 4 ++ le16 57 ++ le16 4)
  | 2 => Block.ofBytes [0x7F]
  | 3 => Block.ofBytes [0xFF, 0x0F]
  | 4 =>
    (Block.zero.patch 128 ((((ExtInode.fresh extModeDir 2).setSize 2048).setBlock 0 5).bytes 0 128)).patch (11 * 128)
      ((((ExtInode.fresh extModeFile 1).setSize 3).setBlock 0 6).bytes 0 128)
  | 5 => extfsSplitEntry (extfsDotEntries 2048 2 2) 12 12 extDirFileType [0x61]
  | 6 => Block.ofBytes [1, 2, 3]
  | _ => Block.zero

def tinyExt (x : Nat) : Sector :=
  if x = 2 ∨ x = 3 then fun i => tinySuper.byte (512 * (x - 2) + i.val) else sectorOf (tinyBlock (x / 4)) (x % 4)

attribute [local instance] neZero_eight in
def twoMounts : Vfs where
  disks := fun d => if d = 0 then tinyExt else Function.update (fun _ => Block.zero) 0 smallBoot
  device := fun i => i.toNat
  mounts := fun i =>
    if i = 0 then ⟨true, .extfs, 0, 0⟩ else if i = 1 then ⟨true, .fat32, 0, 1⟩ else ⟨false, .none, 0, 0⟩
  currentFs := .extfs
  currentMountPartition := 0
  currentBlockdev := 0
  fat := Fat32.unmounted fun _ => Block.zero
  fatDevice := 0
  ext := (extfsInit 0 (Extfs.unmounted tinyExt)).2
  extDevice := 0

theorem twoMounts_inUse_fat {m : MountPoint} (h : InUse twoMounts .fat32 m) :
    m = ⟨true, .fat32, 0, 1⟩ := by
  obtain ⟨hm, htype, i, rfl⟩ := h
  revert hm htype
  revert i
  decide

theorem twoMounts_inUse_ext {m : MountPoint} (h : InUse twoMounts .extfs m) :
    m = ⟨true, .extfs, 0, 0⟩ := by
  obtain ⟨hm, htype, i, rfl⟩ := h
  revert hm htype
  revert i
  decide

theorem twoMounts_fatVolume : fatVolume twoMounts ⟨true, .fat32, 0, 1⟩ = smallVolume := rfl

theorem twoMounts_header {d x : Nat} (h : LogHeader twoMounts d x) : d = 1 ∧ x = 88 := by
  obtain ⟨m, hm, hd, -, hx⟩ := h
  obtain rfl := twoMounts_inUse_fat hm
  refine ⟨hd.symm, hx.trans ?_⟩
  rw [twoMounts_fatVolume]
  exact smallVolume_walLogLba

theorem twoMounts_fatOk : FatMountOk twoMounts ⟨true, .fat32, 0, 1⟩ := by
  have hspc : smallVolume.bpb.sectorsPerCluster = 1 := by decide
  have hfat : smallVolume.fatLba = 1 := by decide +kernel
  have hdata : smallVolume.dataLba = 3 := by decide
  have hcount : smallVolume.clusterCount = 85 := by decide
  have hreplay : replayCount (logState twoMounts ⟨true, .fat32, 0, 1⟩) = 0 := by decide
  have hlog : (logState twoMounts ⟨true, .fat32, 0, 1⟩).walLogLba = 88 := by decide
  have hboot : bootSectors (twoMounts.disks (mountDisk twoMounts ⟨true, .fat32, 0, 1⟩))
      (mountHint twoMounts ⟨true, .fat32, 0, 1⟩) = [0, 0, 0] := by decide
  refine ⟨by decide, ?_, ?_, ?_, fun _ => ⟨?_, ?_, ?_, ?_⟩, ?_⟩
  · intro x hx hh
    rw [hboot] at hx
    have := (twoMounts_header hh).2
    simp only [List.mem_cons, List.not_mem_nil, or_false, or_self] at hx
    omega
  · intro c hc hh
    have := (twoMounts_header hh).2
    rw [twoMounts_fatVolume] at hc this
    simp only [fat32InRange, hcount, Bool.and_eq_true, decide_eq_true_eq] at hc
    simp only [fat32FatSector, hfat, w32] at this
    omega
  · intro c hc lba hlba hh
    have := (twoMounts_header hh).2
    rw [twoMounts_fatVolume] at hc hlba
    simp only [fat32InRange, hcount, Bool.and_eq_true, decide_eq_true_eq] at hc
    obtain ⟨i, hi, rfl⟩ := List.mem_map.mp hlba
    have hi := List.mem_range.mp hi
    rw [hspc] at hi
    simp only [fat32ClusterToLba, hdata, hspc, w32] at this
    omega
  · intro k hk hk' hh
    have := (twoMounts_header hh).2
    rw [hlog] at this
    unfold walSectors at hk'
    unfold w32 at this
    omega
  · omega
  · intro i hi
    omega
  · rw [hreplay]
    intro x image h
    simp [replayWrites] at h
  · rw [twoMounts_fatVolume]
    refine ⟨by omega, ?_⟩
    decide

theorem twoMounts_extOk : ExtMountOk twoMounts ⟨true, .extfs, 0, 0⟩ := by
  have hnone : ∀ x, ¬ LogHeader twoMounts (mountDisk twoMounts ⟨true, .extfs, 0, 0⟩) x :=
    fun x hx =>
    absurd (twoMounts_header hx).1 (by decide)
  exact ⟨by decide, fun x _ => hnone x, by decide, fun x _ _ => hnone x⟩

/-- A machine with a FAT32 and an ext volume, both written back. -/
theorem twoMounts_settled : Settled twoMounts := by
  refine ⟨?_, fun m hm => twoMounts_inUse_fat hm ▸ twoMounts_fatOk,
    fun m hm => twoMounts_inUse_ext hm ▸ twoMounts_extOk,
    fun m hm hcur => ?_, fun m hm hcur => ?_⟩
  · intro i j hi hj hneg
    revert hi hj hneg
    revert i j
    decide
  · exact absurd (hcur.1.trans hm.2.1) (by decide)
  · obtain rfl := twoMounts_inUse_ext hm
    obtain ⟨f, hf, hdisk, hshows⟩ := shows_init (e := Extfs.unmounted tinyExt) twoMounts_extOk fun x => .inl rfl
    have hext : twoMounts.ext = f := congrArg Prod.snd hf
    refine ⟨rfl, hshows.of_eq ?_ (by rw [← hext]; rfl) (by rw [← hext]; rfl)⟩
    rw [hdisk]
    rfl

/-- On that machine reads on both volumes are not changed by switches. -/
theorem mountTransparent_twoMounts :
    MountTransparent (fun _ _ => false) twoMounts 0 (.readFile [0x2F, 0x61] 16) ∧
      MountTransparent (fun _ _ => false) twoMounts 1 (.readFile [0x2F, 0x61] 16) :=
  ⟨mountTransparent_of_settled _ twoMounts twoMounts_settled 0 (.inr rfl) _ fun _ => by decide +kernel,
    mountTransparent_of_settled _ twoMounts twoMounts_settled 1 (.inl rfl) _ nofun⟩

/-- The same mounts after the file `/a` has been written anew through the driver, with the new
contents in its cache. -/
def unsyncedMounts : Vfs :=
  { twoMounts with ext := ((extfsWriteFile [0x2F, 0x61] [7] twoMounts.extState).map Prod.snd).getD twoMounts.ext }

/-- A dirty block of the ext cache is lost by a switch. -/
theorem not_mountTransparent :
    ¬ MountTransparent (fun _ _ => false) unsyncedMounts 0 (.readFile [0x2F, 0x61] 16) := by
  intro h
  have hread := h [1, 0] 0
  revert hread
  decide +kernel

end Monios.Analysis
