import Monios.Library.Run
import Monios.Analysis.LogReplay

/-!
# Who owns the clusters of a formatted volume

`fat32_format` clears both FATs, sets the two reserved entries and clears the cluster of the root
directory, but never writes the FAT entry of that cluster. The root directory of a fresh volume
therefore lies on a cluster that the FAT calls free, and `fat32_allocate_cluster` hands it out
first.
-/

set_option autoImplicit false

namespace Monios.Analysis

open Monios.Library Monios.Model

inductive Fat32Op
  | writeFile (path data : List UInt8)
  | delete (path : List UInt8)
  | mkdir (path : List UInt8)
  | rmdir (path : List UInt8)
  | rename (oldpath newpath : List UInt8)
  | appendOpen (path : List UInt8)
  | appendWrite (data : List UInt8)
  | appendClose

def fat32Step (fuel : Nat) (s : Fat32) : Fat32Op → Option Fat32
  | .writeFile path data => (fat32WriteFile fuel path data s).map Prod.snd
  | .delete path => (fat32Delete fuel path s).map Prod.snd
  | .mkdir path => (fat32Mkdir fuel path s).map Prod.snd
  | .rmdir path => (fat32Rmdir fuel path s).map Prod.snd
  | .rename oldpath newpath => (fat32Rename fuel oldpath newpath s).map Prod.snd
  | .appendOpen path => (fat32AppendOpen fuel path s).map Prod.snd
  | .appendWrite data => (fat32AppendWrite fuel data s).map Prod.snd
  | .appendClose => (fat32AppendClose s).map Prod.snd

/-- The chains of the root directory and of all live entries are finite and disjoint, and
every cluster that the FAT does not call free belongs to one of them. -/
def ClustersOwned (s : Fat32) : Prop :=
  ∃ k root below, TreeClusters s (fun _ => True) k root below ∧
    ∀ c, fat32InRange s c = true → fatEntry s c ≠ fat32ClusterFree → c ∈ root ++ below

theorem fat32FormatFatSize_bounds {sectorCount spc n fatSize result : Nat} (hspc : 8 ≤ spc)
    (h1 : 1 ≤ fatSize) (h2 : fatSize < 2 ^ 24)
    (h : fat32FormatFatSize sectorCount spc n fatSize = some result) :
    1 ≤ result ∧ result < 2 ^ 24 := by
  induction n generalizing fatSize with
  | zero =>
    unfold fat32FormatFatSize at h
    obtain rfl := Option.some.inj h
    exact ⟨h1, h2⟩
  | succ n ih =>
    unfold fat32FormatFatSize at h
    split at h
    · cases h
    · dsimp only at h
      split at h
      · obtain rfl := Option.some.inj h
        exact ⟨h1, h2⟩
      · have hdata : fat32FormatDataSectors sectorCount fatSize < 2 ^ 32 := w32_lt _
        have hcount : fat32FormatDataSectors sectorCount fatSize / spc < 2 ^ 29 := by
          apply Nat.div_lt_of_lt_mul
          calc fat32FormatDataSectors sectorCount fatSize < 8 * 2 ^ 29 := by omega
            _ ≤ spc * 2 ^ 29 := Nat.mul_le_mul_right _ hspc
        generalize fat32FormatDataSectors sectorCount fatSize / spc = count at h hcount
        exact ih (by omega) (by omega) h

theorem fat32FormatSpc_cases (sectorCount : Nat) :
    fat32FormatSpc sectorCount = 8 ∨ fat32FormatSpc sectorCount = 16 ∨
      fat32FormatSpc sectorCount = 32 := by
  unfold fat32FormatSpc
  dsimp only
  split
  · exact .inl rfl
  · split
    · exact .inr (.inl rfl)
    · exact .inr (.inr rfl)

theorem fat32FormatLayout_bounds {sectorCount sectorSize spc fatSize : Nat}
    (h : fat32FormatLayout sectorCount sectorSize = some (spc, fatSize)) :
    (spc = 8 ∨ spc = 16 ∨ spc = 32) ∧ 1 ≤ fatSize ∧ fatSize < 2 ^ 24 := by
  have hspc := fat32FormatSpc_cases sectorCount
  unfold fat32FormatLayout at h
  split at h
  · cases h
  · dsimp only at h
    split at h
    · cases h
    · next size hsize =>
        split at h
        · cases h
        · split at h
          · cases h
          · obtain ⟨rfl, rfl⟩ := Prod.mk.inj (Option.some.inj h)
            exact ⟨hspc, fat32FormatFatSize_bounds (by omega) (by omega) (by omega) hsize⟩

section

variable {s : Fat32} {v sectorCount spc fatSize : Nat}

theorem fat32FormatReserved_of_ne {base x : Nat} (h : x ≠ base) :
    (fat32FormatReserved s base).disk x = s.disk x :=
  ataWriteSector_of_ne h

theorem fat32FormatWrite_of_ne (hv : v < 2 ^ 32) {x k : Nat}
    (hx : x = w32 (v + k)) (hk : 32 + 2 * fatSize + spc ≤ k) (hk' : k < 2 ^ 32)
    (hfat : 1 ≤ fatSize) :
    (fat32FormatWrite s v sectorCount spc fatSize).disk x = s.disk x := by
  have hne : ∀ j, j < 32 + 2 * fatSize + spc → x ≠ w32 (v + j) := by
    intro j hj
    rw [hx]
    exact w32_add_ne hk' (by omega) (by omega)
  have hv0 : x ≠ v := by
    have := hne 0 (by omega)
    unfold w32 at this
    omega
  unfold fat32FormatWrite
  dsimp only
  rw [ataWriteSectors_of_ne _ _ _ ?_ (w32_lt _), fat32FormatReserved_of_ne ?_,
    fat32FormatReserved_of_ne (hne 32 (by omega)), ataWriteSectors_of_ne _ _ _ ?_ (w32_lt _),
    ataWriteSectors_of_ne _ _ _ ?_ (w32_lt _), ataWriteSector_of_ne (hne 6 (by omega)),
    ataWriteSector_of_ne hv0]
  · intro j hj
    rw [w32_w32_add, Nat.add_assoc]
    rw [List.length_replicate] at hj
    exact hne _ (by omega)
  · intro j hj
    rw [w32_w32_add, Nat.add_assoc, Nat.add_assoc]
    rw [List.length_replicate] at hj
    exact hne _ (by omega)
  · rw [Nat.add_assoc]
    exact hne (32 + fatSize) (by omega)
  · intro j hj
    rw [w32_w32_add, Nat.add_assoc]
    rw [List.length_replicate] at hj
    exact hne _ (by omega)

theorem fat32FormatWrite_boot (hbound : 32 + 2 * fatSize + spc < 2 ^ 32) (hfat : 1 ≤ fatSize) :
    (fat32FormatWrite s v sectorCount spc fatSize).disk v =
      fat32FormatBoot spc sectorCount fatSize := by
  have hne : ∀ j, 0 < j → j < 32 + 2 * fatSize + spc → v ≠ w32 (v + j) := by
    intro j hj hj'
    unfold w32
    omega
  unfold fat32FormatWrite
  dsimp only
  rw [ataWriteSectors_of_ne _ _ _ ?_ (w32_lt _), fat32FormatReserved_of_ne ?_,
    fat32FormatReserved_of_ne (hne 32 (by omega) (by omega)), ataWriteSectors_of_ne _ _ _ ?_ (w32_lt _),
    ataWriteSectors_of_ne _ _ _ ?_ (w32_lt _), ataWriteSector_of_ne (hne 6 (by omega) (by omega)),
    ataWriteSector_self]
  · intro j hj
    rw [w32_w32_add, Nat.add_assoc]
    rw [List.length_replicate] at hj
    exact hne _ (by omega) (by omega)
  · intro j hj
    rw [w32_w32_add, Nat.add_assoc, Nat.add_assoc]
    rw [List.length_replicate] at hj
    exact hne _ (by omega) (by omega)
  · rw [Nat.add_assoc]
    exact hne (32 + fatSize) (by omega) (by omega)
  · intro j hj
    rw [w32_w32_add, Nat.add_assoc]
    rw [List.length_replicate] at hj
    exact hne _ (by omega) (by omega)

theorem fat32FormatWrite_fat (hbound : 32 + 2 * fatSize + spc < 2 ^ 32) (hfat : 1 ≤ fatSize) :
    (fat32FormatWrite s v sectorCount spc fatSize).disk (w32 (v + 32)) =
      (Block.zero.patch 0 (le32 0x0FFFFFF8)).patch 4 (le32 0x0FFFFFFF) := by
  have hne : ∀ j, 32 < j → j < 32 + 2 * fatSize + spc → w32 (v + 32) ≠ w32 (v + j) := by
    intro j hj hj'
    exact w32_add_ne (by omega) (by omega) (by omega)
  unfold fat32FormatWrite
  dsimp only
  rw [ataWriteSectors_of_ne _ _ _ ?_ (w32_lt _), fat32FormatReserved_of_ne ?_]
  · unfold fat32FormatReserved
    rw [ataWriteSector_self]
    unfold ataReadSector
    rw [ataWriteSectors_zero _ _ _ (w32_lt _)]
    left
    apply ataWriteSectors_zero _ _ _ (w32_lt _)
    exact .inr ⟨0, hfat, by rw [w32_w32_add, Nat.add_zero]⟩
  · rw [Nat.add_assoc]
    exact hne (32 + fatSize) (by omega) (by omega)
  · intro j hj
    rw [w32_w32_add, Nat.add_assoc]
    rw [List.length_replicate] at hj
    exact hne _ (by omega) (by omega)

end

theorem ofSector_fat32FormatBoot {spc sectorCount fatSize : Nat} (hspc : spc < 256)
    (hfat : fatSize < 2 ^ 32) :
    Fat32Bpb.ofSector (fat32FormatBoot spc sectorCount fatSize) =
      { bytesPerSector := 512, sectorsPerCluster := spc, reservedSectorCount := 32, fatCount := 2
        rootEntryCount := 0, totalSectors16 := 0, fatSize16 := 0, hiddenSectors := 0
        totalSectors32 := w32 sectorCount, fatSize32 := fatSize, rootCluster := 2
        volumeId := 0x1234ABCD } := by
  have hcount := w32_lt sectorCount
  have hbyte : ∀ (b : Sector) (o : Nat) (x : UInt8), o < 512 → (b.patch o [x]).byte o = x := by
    intro b o x ho
    exact Block.byte_patch_self b (o := o) (i := 0) (d := [x]) (by simp) (by simp; omega)
  unfold Fat32Bpb.ofSector fat32FormatBoot
  dsimp only
  simp (disch := first | assumption | simp) only [Block.u16_patch_of_disjoint,
    Block.u32_patch_of_disjoint, Block.byte_patch_of_disjoint, Block.u16_patch_self, Block.u32_patch_self,
    hbyte]
  simp [Block.u16, Block.u32, Nat.mod_eq_of_lt hspc]

def formattedLog (v sectorCount : Nat) : Nat := w32 (v + (w32 sectorCount - walSectors))

def NoStaleLog (disk : Nat → Sector) (v sectorCount : Nat) : Prop :=
  walHeaderMagic (disk (formattedLog v sectorCount)) = true → (disk (formattedLog v sectorCount)).u32 12 = 0

theorem replayDisk_of_empty {s : Fat32}
    (h : walHeaderMagic (s.disk s.walLogLba) = true → (s.disk s.walLogLba).u32 12 = 0) :
    replayDisk s = s.disk := by
  have hcount : replayCount s = 0 := by
    unfold replayCount walReplayLimit ataReadSector
    by_cases hmagic : walHeaderMagic (s.disk s.walLogLba) = true
    · simp only [if_pos hmagic, h hmagic, Nat.zero_min]
    · rw [if_neg hmagic]
  unfold replayDisk
  rw [hcount]
  rfl

/-- On a volume that has just been formatted and mounted, the root directory starts at cluster 2
and the FAT calls that cluster free. -/
theorem formatted_root_free {hint : Int} {m f s : Fat32} {v sectorCount sectorSize : Nat}
    (hhint : fat32FirstSector hint = v) (hv : v < 2 ^ 32)
    (hformat : fat32Format v sectorCount sectorSize m = (true, f))
    (hinit : fat32Init hint f = (true, s)) (hstale : NoStaleLog m.disk v sectorCount) :
    s.bpb.rootCluster = 2 ∧ fatEntry s 2 = fat32ClusterFree := by
  unfold fat32Format at hformat
  split at hformat
  · cases hformat
  · next spc fatSize hlayout =>
      obtain ⟨hspc, hfat1, hfat2⟩ := fat32FormatLayout_bounds hlayout
      have hbound : 32 + 2 * fatSize + spc < 2 ^ 32 := by omega
      obtain rfl : fat32FormatWrite m v sectorCount spc fatSize = f := (Prod.mk.inj hformat).2
      obtain ⟨b, hb⟩ : ∃ b, Fat32Bpb.ofSector (fat32FormatBoot spc sectorCount fatSize) = b :=
        ⟨_, rfl⟩
      have hbpb : Fat32Bpb.ofSector (fat32FormatBoot spc sectorCount fatSize) = _ :=
        ofSector_fat32FormatBoot (by omega) (by omega)
      rw [hb] at hbpb
      -- the mount finds the new boot sector
      have hloc : fat32Locate (fat32FormatWrite m v sectorCount spc fatSize).disk hint =
          (v, b, true) := by
        have hvalid : b.isValid = true := by
          rw [hbpb]
          simp only [Fat32Bpb.isValid]
          simp
          omega
        have hhidden : b.hiddenSectors = 0 := by rw [hbpb]
        unfold fat32Locate
        simp only [hhint, fat32FormatWrite_boot hbound hfat1, hb, hvalid, hhidden]
        rfl
      obtain ⟨v', b', hloc', hroom⟩ := located_of_fat32Init hinit
      rw [hloc] at hloc'
      obtain ⟨rfl, hbb⟩ := Prod.mk.inj hloc'
      obtain ⟨rfl, -⟩ := Prod.mk.inj hbb
      obtain ⟨r, hr, hdisk, hvol, hbpb', -, hfatLba, -⟩ := fat32Init_of_located hloc hroom
      obtain rfl : r = s := (Prod.mk.inj (hr.symm.trans hinit)).2
      have htotal : b.totalSectors = w32 sectorCount := by rw [hbpb]; rfl
      have hstart : b.dataStart = 32 + 2 * fatSize := by
        rw [hbpb]
        show w32 (32 + w32 (2 * fatSize)) = _
        unfold w32
        omega
      have hsector : fat32FatSector r 0 2 = w32 (v + 32) := by
        unfold fat32FatSector
        rw [hfatLba, hbpb]
        simp only [w32]
        omega
      -- the log begins behind everything that has been formatted
      have hfatSector : r.disk (w32 (v + 32)) =
          (Block.zero.patch 0 (le32 0x0FFFFFF8)).patch 4 (le32 0x0FFFFFFF) := by
        have hformatted : (fat32FormatWrite m v sectorCount spc fatSize).disk (w32 (v + 32)) = _ :=
          fat32FormatWrite_fat hbound hfat1
        rw [hdisk, ← hformatted]
        unfold mountedDisk
        by_cases hlog : HasLog b
        · have hlog' := hlog
          unfold HasLog walSectors at hlog'
          rw [htotal, hstart] at hlog'
          have hwlt := w32_lt sectorCount
          have hlogLba : logStart v b = formattedLog v sectorCount := by
            unfold logStart formattedLog
            rw [htotal]
          have hlogDisk : (fat32FormatWrite m v sectorCount spc fatSize).disk (formattedLog v sectorCount) =
              m.disk (formattedLog v sectorCount) :=
            fat32FormatWrite_of_ne hv rfl (by unfold walSectors; omega) (by omega) hfat1
          rw [if_pos hlog, Function.update_of_ne, replayDisk_of_empty]
          · rfl
          · show walHeaderMagic ((fat32FormatWrite m v sectorCount spc fatSize).disk (logStart v b)) = true →
              ((fat32FormatWrite m v sectorCount spc fatSize).disk (logStart v b)).u32 12 = 0
            rw [hlogLba, hlogDisk]
            exact hstale
          · rw [hlogLba]
            exact w32_add_ne (by omega) (by omega) (by unfold walSectors; omega)
        · rw [if_neg hlog]
      refine ⟨by rw [hbpb', hbpb], ?_⟩
      unfold fatEntry
      rw [hsector, hfatSector]
      have hoff : fat32FatOffset 2 = 8 := rfl
      rw [hoff, Block.u32_patch_of_disjoint _ (by simp), Block.u32_patch_of_disjoint _ (by simp)]
      rfl

theorem not_fatChain_of_free {s : Fat32} {c : Nat} {l : List Nat}
    (h : fatEntry s c = fat32ClusterFree) :
    ¬ FatChain s c l := by
  intro hchain
  have hmem : c ∈ l := by
    cases hchain with
    | last _ _ => simp
    | link _ _ _ => simp
  exact hchain.not_free c hmem h

/-- For every volume `fat32_format` and `fat32_init` produce, on sectors without an old log, and
every sequence of operations on it: it is not true that the clusters are owned in every
state that is reached. -/
theorem not_clustersOwned (hint : Int) (m f s : Fat32) (v sectorCount sectorSize : Nat)
    (hhint : fat32FirstSector hint = v) (hv : v < 2 ^ 32)
    (hformat : fat32Format v sectorCount sectorSize m = (true, f))
    (hinit : fat32Init hint f = (true, s)) (hstale : NoStaleLog m.disk v sectorCount) (fuel : Nat)
    (ops : List Fat32Op) :
    ¬ ∀ (as : List Fat32Op) (t : Fat32), as <+: ops → Run (fat32Step fuel) s as t →
      ClustersOwned t := by
  intro hall
  obtain ⟨k, root, below, htree, -⟩ := hall [] s List.nil_prefix (.nil s)
  obtain ⟨hroot, hfree⟩ := formatted_root_free hhint hv hformat hinit hstale
  have hchain := htree.rootChain
  rw [hroot] at hchain
  exact not_fatChain_of_free hfree hchain

def formattedDisk : Fat32 := (fat32Format 0 1000 512 (Fat32.unmounted fun _ => Block.zero)).2

def formattedVolume : Fat32 := (fat32Init 0 formattedDisk).2

theorem formattedDisk_format :
    fat32Format 0 1000 512 (Fat32.unmounted fun _ => Block.zero) = (true, formattedDisk) :=
  Prod.ext (by decide) rfl

theorem formattedVolume_init : fat32Init 0 formattedDisk = (true, formattedVolume) :=
  Prod.ext (by decide) rfl

theorem blank_noStaleLog : NoStaleLog (Fat32.unmounted fun _ => Block.zero).disk 0 1000 := by
  intro hmagic
  exact absurd hmagic (by decide)

theorem not_clustersOwned_blank :
    ¬ ∀ (as : List Fat32Op) (t : Fat32), as <+: [.writeFile [0x41] [0x42]] →
        Run (fat32Step 100) formattedVolume as t → ClustersOwned t :=
  not_clustersOwned 0 _ formattedDisk formattedVolume 0 1000 512 rfl (by decide) formattedDisk_format
    formattedVolume_init blank_noStaleLog 100 [.writeFile [0x41] [0x42]]

/-- The volume just formatted and mounted already breaks the rule, and the first cluster that is
allocated on it is that of the root directory. -/
theorem clustersOwned_fails : (∃ t, fat32AllocateCluster formattedVolume = some (formattedVolume.bpb.rootCluster, t)) ∧
    ¬ ∀ (hint : Int) (m f s : Fat32) (v sectorCount sectorSize fuel : Nat) (ops : List Fat32Op)
      (t : Fat32),
        fat32FirstSector hint = v → fat32Format v sectorCount sectorSize m = (true, f) →
        fat32Init hint f = (true, s) → Run (fat32Step fuel) s ops t → ClustersOwned t := by
  refine ⟨?_, ?_⟩
  · have h : (fat32AllocateCluster formattedVolume).map Prod.fst =
        some formattedVolume.bpb.rootCluster := by
      decide
    obtain ⟨⟨c, t⟩, ht, hc⟩ := Option.map_eq_some_iff.mp h
    exact ⟨t, by rw [ht, ← hc]⟩
  · intro hall
    obtain ⟨k, root, below, htree, -⟩ := hall 0 _ formattedDisk formattedVolume 0 1000 512 0 [] formattedVolume
      rfl formattedDisk_format formattedVolume_init (.nil _)
    have hfirst : fat32FirstSector 0 = 0 := rfl
    obtain ⟨hroot, hfree⟩ := formatted_root_free hfirst (by decide) formattedDisk_format
      formattedVolume_init blank_noStaleLog
    have hchain := htree.rootChain
    rw [hroot] at hchain
    exact not_fatChain_of_free hfree hchain

end Monios.Analysis
