import Monios.Analysis.ClusterOwnership

/-!
# What a formatted volume is worth

`fat32_format` looks for the size of a FAT with sixteen rounds of a map that may go to and fro
between two sizes. Two sizes in a row differ by at most one in the end (`fatSize_near`), and as the
log takes more clusters from the data area than that, the FATs have an entry for every cluster of
the mounted volume.
-/

set_option autoImplicit false

namespace Monios.Analysis

open Monios.Library Monios.Model

def neededFatSize (sectorCount spc fatSize : Nat) : Nat :=
  (((sectorCount - (32 + 2 * fatSize)) / spc + 2) * 4 + 511) / 512

def shrink (d : Nat) : Nat := (d / 4 + 1) / 128 + 1

theorem shrink_fifteen : shrink^[15] (2 ^ 24) = 1 := by decide

section

variable {sectorCount spc : Nat}

theorem fat32FormatDataSectors_eq {fatSize : Nat} (hcount : sectorCount < 2 ^ 32)
    (h : 32 + 2 * fatSize < sectorCount) :
    fat32FormatDataSectors sectorCount fatSize = sectorCount - (32 + 2 * fatSize) := by
  unfold fat32FormatDataSectors w32
  omega

theorem neededFatSize_near (hspc : spc = 8 ∨ spc = 16 ∨ spc = 32) {a b d : Nat} (hab : a ≤ b + d)
    (hba : b ≤ a + d) :
    neededFatSize sectorCount spc a ≤ neededFatSize sectorCount spc b + shrink d := by
  unfold neededFatSize shrink
  rcases hspc with rfl | rfl | rfl <;> omega

theorem fatSize_near (hspc : spc = 8 ∨ spc = 16 ∨ spc = 32) (hcount : sectorCount < 2 ^ 32)
    {n prev fatSize d result : Nat} (hneeded : neededFatSize sectorCount spc prev = fatSize)
    (hle : fatSize ≤ prev + d) (hge : prev ≤ fatSize + d)
    (h : fat32FormatFatSize sectorCount spc n fatSize = some result) :
    neededFatSize sectorCount spc result = result ∨
      ∃ prev, neededFatSize sectorCount spc prev = result ∧ prev ≤ result + shrink^[n] d := by
  induction n generalizing prev fatSize d with
  | zero =>
    obtain rfl := Option.some.inj h
    exact .inr ⟨prev, hneeded, hge⟩
  | succ n ih =>
    unfold fat32FormatFatSize at h
    by_cases hsmall : sectorCount ≤ 32 + 2 * fatSize
    · rw [if_pos hsmall] at h
      cases h
    · rw [if_neg hsmall] at h
      dsimp only at h
      rw [fat32FormatDataSectors_eq hcount (by omega)] at h
      change (if neededFatSize sectorCount spc fatSize = fatSize then _ else
        fat32FormatFatSize sectorCount spc n (neededFatSize sectorCount spc fatSize)) = _ at h
      by_cases hfix : neededFatSize sectorCount spc fatSize = fatSize
      · rw [if_pos hfix] at h
        obtain rfl := Option.some.inj h
        exact .inl hfix
      · rw [if_neg hfix] at h
        have hnear : neededFatSize sectorCount spc fatSize ≤
            neededFatSize sectorCount spc prev + shrink d :=
          neededFatSize_near hspc hle hge
        have hnear' : neededFatSize sectorCount spc prev ≤ neededFatSize sectorCount spc fatSize +
            shrink d :=
          neededFatSize_near hspc hge hle
        rw [hneeded] at hnear hnear'
        rw [Function.iterate_succ_apply]
        exact ih rfl hnear hnear' h

end

theorem fat32FormatFatSize_needed {sectorCount spc fatSize : Nat}
    (hspc : spc = 8 ∨ spc = 16 ∨ spc = 32) (hcount : sectorCount < 2 ^ 32)
    (h : fat32FormatFatSize sectorCount spc 16 1 = some fatSize) :
    ∃ prev, neededFatSize sectorCount spc prev = fatSize ∧ prev ≤ fatSize + 1 := by
  have hfirst : neededFatSize sectorCount spc 1 ≤ 2 ^ 24 := by
    unfold neededFatSize
    rcases hspc with rfl | rfl | rfl <;> omega
  unfold fat32FormatFatSize at h
  by_cases hsmall : sectorCount ≤ 32 + 2 * 1
  · rw [if_pos hsmall] at h
    cases h
  · rw [if_neg hsmall] at h
    dsimp only at h
    rw [fat32FormatDataSectors_eq hcount (by omega)] at h
    change (if neededFatSize sectorCount spc 1 = 1 then _ else
      fat32FormatFatSize sectorCount spc 15 (neededFatSize sectorCount spc 1)) = _ at h
    by_cases hfix : neededFatSize sectorCount spc 1 = 1
    · rw [if_pos hfix] at h
      obtain rfl := Option.some.inj h
      exact ⟨1, hfix, by omega⟩
    · rw [if_neg hfix] at h
      obtain hself | ⟨prev, hneeded, hprev⟩ :=
        fatSize_near hspc hcount rfl (show _ ≤ 1 + 2 ^ 24 by omega) (by omega) h
      · exact ⟨fatSize, hself, by omega⟩
      · rw [shrink_fifteen] at hprev
        exact ⟨prev, hneeded, hprev⟩

theorem fat32FormatLayout_needed {sectorCount sectorSize spc fatSize : Nat}
    (hcount : sectorCount < 2 ^ 32)
    (h : fat32FormatLayout sectorCount sectorSize = some (spc, fatSize)) :
    32 + 2 * fatSize < sectorCount ∧ ∃ prev, neededFatSize sectorCount spc prev = fatSize ∧
      prev ≤ fatSize + 1 := by
  obtain ⟨hspc, -, -⟩ := fat32FormatLayout_bounds h
  unfold fat32FormatLayout at h
  by_cases hsize : sectorSize ≠ 512 ∨ sectorCount < 36
  · rw [if_pos hsize] at h
    cases h
  · rw [if_neg hsize] at h
    dsimp only at h
    cases hloop : fat32FormatFatSize sectorCount (fat32FormatSpc sectorCount) 16 1 with
    | none =>
      rw [hloop] at h
      cases h
    | some size =>
      rw [hloop] at h
      dsimp only at h
      by_cases hroom : sectorCount ≤ 32 + 2 * size
      · rw [if_pos hroom] at h
        cases h
      · rw [if_neg hroom] at h
        by_cases hcluster : fat32FormatDataSectors sectorCount size / fat32FormatSpc sectorCount < 1
        · rw [if_pos hcluster] at h
          cases h
        · rw [if_neg hcluster] at h
          obtain ⟨rfl, rfl⟩ := Prod.mk.inj (Option.some.inj h)
          exact ⟨by omega, fat32FormatFatSize_needed hspc hcount hloop⟩

def formattedBpb (spc sectorCount fatSize : Nat) : Fat32Bpb where
  bytesPerSector := 512
  sectorsPerCluster := spc
  reservedSectorCount := 32
  fatCount := 2
  rootEntryCount := 0
  totalSectors16 := 0
  fatSize16 := 0
  hiddenSectors := 0
  totalSectors32 := w32 sectorCount
  fatSize32 := fatSize
  rootCluster := 2
  volumeId := 0x1234ABCD

section

variable {v sectorCount sectorSize spc fatSize : Nat} {m f : Fat32}

theorem fat32Format_layout (h : fat32Format v sectorCount sectorSize m = (true, f)) :
    ∃ spc fatSize, fat32FormatLayout sectorCount sectorSize = some (spc, fatSize) ∧
      f = fat32FormatWrite m v sectorCount spc fatSize := by
  unfold fat32Format at h
  cases hlayout : fat32FormatLayout sectorCount sectorSize with
  | none =>
    rw [hlayout] at h
    cases h
  | some r =>
    rw [hlayout] at h
    exact ⟨r.1, r.2, rfl, (Prod.mk.inj h).2.symm⟩

theorem fat32Locate_formatted (hlayout : fat32FormatLayout sectorCount sectorSize = some (spc, fatSize)) :
    fat32Locate (fat32FormatWrite m v sectorCount spc fatSize).disk v =
      (v, formattedBpb spc sectorCount fatSize, true) := by
  obtain ⟨hspc, hfat1, hfat2⟩ := fat32FormatLayout_bounds hlayout
  have hboot : Fat32Bpb.ofSector (fat32FormatBoot spc sectorCount fatSize) =
      formattedBpb spc sectorCount fatSize :=
    ofSector_fat32FormatBoot (by omega) (by omega)
  have hvalid : (formattedBpb spc sectorCount fatSize).isValid = true := by
    simp only [Fat32Bpb.isValid, formattedBpb]
    simp
    omega
  have hfirst : fat32FirstSector (v : Int) = v := rfl
  unfold fat32Locate
  simp only [hfirst, fat32FormatWrite_boot (show 32 + 2 * fatSize + spc < 2 ^ 32 by omega) hfat1,
    hboot, hvalid]
  rfl

theorem dataStart_formattedBpb (hfat : fatSize < 2 ^ 24) :
    (formattedBpb spc sectorCount fatSize).dataStart = 32 + 2 * fatSize := by
  unfold Fat32Bpb.dataStart formattedBpb w32
  dsimp only
  omega

def firstMount (v : Nat) (f : Fat32) : Fat32 := (fat32Init v f).2

theorem firstMount_fields (hlayout : fat32FormatLayout sectorCount sectorSize = some (spc, fatSize))
    (hroom : 32 + 2 * fatSize < w32 sectorCount)
    (hf : f = fat32FormatWrite m v sectorCount spc fatSize) :
    (fat32Init v f).1 = true ∧ (firstMount v f).bpb = formattedBpb spc sectorCount fatSize ∧
      (firstMount v f).fatLba = w32 (v + 32) ∧
      (firstMount v f).dataLba = w32 (v + (32 + 2 * fatSize)) ∧
      (firstMount v f).clusterCount = dataClusters (formattedBpb spc sectorCount fatSize) ∧
      (firstMount v f).walOn = decide (HasLog (formattedBpb spc sectorCount fatSize)) := by
  subst hf
  obtain ⟨-, -, hfat2⟩ := fat32FormatLayout_bounds hlayout
  have hstart : (formattedBpb spc sectorCount fatSize).dataStart = 32 + 2 * fatSize :=
    dataStart_formattedBpb hfat2
  have hlt : (formattedBpb spc sectorCount fatSize).dataStart <
      (formattedBpb spc sectorCount fatSize).totalSectors := by
    rw [hstart]
    exact hroom
  obtain ⟨s, hs, -, -, hbpb, -, hfatLba, hdataLba, hcount, hwal, -⟩ :=
    fat32Init_of_located (fat32Locate_formatted hlayout) hlt
  unfold firstMount
  rw [hs]
  rw [hstart] at hdataLba
  exact ⟨rfl, hbpb, hfatLba, hdataLba, hcount, hwal⟩

end

/-- The volume is accepted; its FAT has an entry for every cluster; its parts lie one behind the
other in the sectors of the volume, the copy of the boot sector in the reserved ones and the log
behind the clusters; and its root directory is empty. -/
structure LayoutSound (v sectorCount : Nat) (f : Fat32) : Prop where
  accepted : (fat32Init v f).1 = true
  fatRoom : (firstMount v f).clusterCount + 2 ≤ (firstMount v f).bpb.fatSize32 * 128
  reserved : 6 < (firstMount v f).bpb.reservedSectorCount
  fats : (firstMount v f).bpb.reservedSectorCount + (firstMount v f).bpb.fatCount * (firstMount v f).bpb.fatSize32 =
    (firstMount v f).bpb.dataStart
  data : (firstMount v f).bpb.dataStart + (firstMount v f).clusterCount * (firstMount v f).bpb.sectorsPerCluster +
    (if (firstMount v f).walOn then walSectors else 0) ≤ sectorCount
  rootEmpty : ∀ k, k < (firstMount v f).bpb.sectorsPerCluster →
    f.disk (w32 (fat32ClusterToLba (firstMount v f) (firstMount v f).bpb.rootCluster + k)) = Block.zero

structure FormatSound (v sectorCount : Nat) (f : Fat32) : Prop extends LayoutSound v sectorCount f where
  rootTaken : ∀ i, i < 2 → (f.disk (fat32FatSector (firstMount v f) i (firstMount v f).bpb.rootCluster)).u32
    (fat32FatOffset (firstMount v f).bpb.rootCluster) ≠ fat32ClusterFree

section

variable {v sectorCount sectorSize : Nat} {m f : Fat32}

theorem fat32ClusterToLba_two (s : Fat32) : fat32ClusterToLba s 2 = w32 s.dataLba := by
  have hzero : w32 (2 + (2 ^ 32 - 2)) = 0 := by decide
  unfold fat32ClusterToLba
  rw [hzero, Nat.zero_mul, Nat.add_zero]

theorem dataClusters_formattedBpb {spc fatSize : Nat} (hcount : sectorCount < 2 ^ 32)
    (hspc : spc = 8 ∨ spc = 16 ∨ spc = 32) (hfat : fatSize < 2 ^ 24)
    (hroom : 32 + 2 * fatSize < sectorCount) {prev : Nat}
    (hneeded : neededFatSize sectorCount spc prev = fatSize) (hprev : prev ≤ fatSize + 1) :
    dataClusters (formattedBpb spc sectorCount fatSize) + 2 ≤ fatSize * 128 ∧
      32 + 2 * fatSize + dataClusters (formattedBpb spc sectorCount fatSize) * spc +
        (if HasLog (formattedBpb spc sectorCount fatSize) then walSectors else 0) ≤
        sectorCount := by
  have hstart : (formattedBpb spc sectorCount fatSize).dataStart = 32 + 2 * fatSize :=
    dataStart_formattedBpb hfat
  have htotal : (formattedBpb spc sectorCount fatSize).totalSectors = sectorCount :=
    Nat.mod_eq_of_lt hcount
  have hlog : HasLog (formattedBpb spc sectorCount fatSize) ↔
      544 < sectorCount - (32 + 2 * fatSize) := by
    unfold HasLog walSectors
    rw [htotal, hstart]
  have hclusters : dataClusters (formattedBpb spc sectorCount fatSize) =
      (sectorCount - (32 + 2 * fatSize) - if HasLog (formattedBpb spc sectorCount fatSize) then walSectors else 0) / spc := by
    unfold dataClusters
    rw [htotal, hstart]
    rfl
  rw [hclusters]
  unfold neededFatSize at hneeded
  by_cases h : HasLog (formattedBpb spc sectorCount fatSize)
  · have hmore := hlog.mp h
    rw [if_pos h]
    unfold walSectors
    rcases hspc with rfl | rfl | rfl <;> omega
  · have hless := mt hlog.mpr h
    rw [if_neg h]
    rcases hspc with rfl | rfl | rfl <;> omega

theorem layoutSound_of_format (hcount : sectorCount < 2 ^ 32)
    (h : fat32Format v sectorCount sectorSize m = (true, f)) :
    LayoutSound v sectorCount f := by
  obtain ⟨spc, fatSize, hlayout, hf⟩ := fat32Format_layout h
  obtain ⟨hspc, hfat1, hfat2⟩ := fat32FormatLayout_bounds hlayout
  obtain ⟨hroom, prev, hneeded, hprev⟩ := fat32FormatLayout_needed hcount hlayout
  have hroom' : 32 + 2 * fatSize < w32 sectorCount := by
    rw [w32, Nat.mod_eq_of_lt hcount]
    exact hroom
  obtain ⟨haccepted, hbpb, -, hdataLba, hclusters, hwal⟩ := firstMount_fields hlayout hroom' hf
  obtain ⟨hfatRoom, hinside⟩ := dataClusters_formattedBpb hcount hspc hfat2 hroom hneeded hprev
  have hstart : (formattedBpb spc sectorCount fatSize).dataStart = 32 + 2 * fatSize :=
    dataStart_formattedBpb hfat2
  refine ⟨haccepted, ?_, ?_, ?_, ?_, ?_⟩
  · rw [hclusters, hbpb]
    exact hfatRoom
  · rw [hbpb]
    exact show 6 < 32 by omega
  · rw [hbpb, hstart]
    rfl
  · rw [hclusters, hbpb, hstart, hwal]
    simp only [decide_eq_true_eq]
    exact hinside
  · intro k hk
    rw [hbpb] at hk ⊢
    have hroot : (formattedBpb spc sectorCount fatSize).rootCluster = 2 := rfl
    rw [hroot, fat32ClusterToLba_two, w32_w32_add, hdataLba, hf]
    exact ataWriteSectors_zero _ _ _ (w32_lt _) (.inr ⟨k, hk, rfl⟩)

theorem rootEntry_of_format (h : fat32Format v sectorCount sectorSize m = (true, f))
    (haccepted : (fat32Init v f).1 = true) :
    (f.disk (fat32FatSector (firstMount v f) 0 (firstMount v f).bpb.rootCluster)).u32
      (fat32FatOffset (firstMount v f).bpb.rootCluster) = fat32ClusterFree := by
  obtain ⟨spc, fatSize, hlayout, hf⟩ := fat32Format_layout h
  obtain ⟨hspc, hfat1, hfat2⟩ := fat32FormatLayout_bounds hlayout
  have hroom : 32 + 2 * fatSize < w32 sectorCount := by
    obtain ⟨v', b, hlocate, hlt⟩ := located_of_fat32Init (Prod.ext haccepted rfl)
    rw [hf, fat32Locate_formatted hlayout] at hlocate
    obtain ⟨-, hb⟩ := Prod.mk.inj hlocate
    obtain ⟨rfl, -⟩ := Prod.mk.inj hb
    rw [dataStart_formattedBpb hfat2] at hlt
    exact hlt
  obtain ⟨-, hbpb, hfatLba, -⟩ := firstMount_fields hlayout hroom hf
  have hsector : fat32FatSector (firstMount v f) 0 2 = w32 (v + 32) := by
    unfold fat32FatSector
    rw [hfatLba]
    simp [w32]
  have hoff : fat32FatOffset 2 = 8 := rfl
  have hroot : (formattedBpb spc sectorCount fatSize).rootCluster = 2 := rfl
  rw [hbpb, hroot, hsector, hoff, hf, fat32FormatWrite_fat (by omega) hfat1,
    Block.u32_patch_of_disjoint _ (by simp),
    Block.u32_patch_of_disjoint _ (by simp)]
  rfl

/-- No formatted volume is sound, since the cluster of its root directory is free.  Up to `2 ^ 32`
sectors nothing else is wrong with it. -/
theorem not_formatSound (h : fat32Format v sectorCount sectorSize m = (true, f)) :
    ¬ FormatSound v sectorCount f ∧ (sectorCount < 2 ^ 32 → LayoutSound v sectorCount f) := by
  refine ⟨fun hsound => ?_, fun hcount => layoutSound_of_format hcount h⟩
  exact hsound.rootTaken 0 (by omega) (rootEntry_of_format h hsound.accepted)

end

theorem not_formatSound_formattedDisk :
    ¬ FormatSound 0 1000 formattedDisk ∧ LayoutSound 0 1000 formattedDisk :=
  ⟨(not_formatSound formattedDisk_format).1, (not_formatSound formattedDisk_format).2 (by decide)⟩

theorem formatSound_fails : ∃ m f, fat32Format 0 1000 512 m = (true, f) ∧ ¬ FormatSound 0 1000 f :=
  ⟨_, _, formattedDisk_format, fun hsound =>
    hsound.rootTaken 0 (by decide) (rootEntry_of_format formattedDisk_format hsound.accepted)⟩

end Monios.Analysis
