import Monios.Model.Fat16
import Monios.Analysis.FatAccess

/-!
# The geometry of a FAT16 volume

What `fat16_init` computes against the volume it describes: the clusters of the data area, the
entries of the FAT, and the loops of 16 bits over the clusters.
-/

set_option autoImplicit false

namespace Monios.Analysis.FatGeometry

open Monios.Library Monios.Model

def dataStart (b : Fat16Bpb) : Nat :=
  b.reservedSectorCount + b.fatCount * b.fatSize16 + (b.rootEntryCount * 32 + 511) / 512

def ownClusters (b : Fat16Bpb) : Nat := (b.totalSectors - dataStart b) / b.sectorsPerCluster

/-- A loop has looked at the clusters from 2 on in their order, once each, up to the one it has
found or to the last. -/
def OncePerCluster (count : Nat) (r : List Nat × Option Nat) : Prop :=
  r.1 = List.range' 2 r.1.length ∧ r.1.length ≤ count ∧ (r.2 = none → r.1.length = count) ∧
    ∀ c, r.2 = some c → 2 ≤ c ∧ c < count + 2

structure Sound (s : Fat16) : Prop where
  count : s.clusterCount = ownClusters s.bpb
  entry : ∀ c, 2 ≤ c → c < s.clusterCount + 2 → 2 * c + 2 ≤ 512 * s.bpb.fatSize16
  sectors : ∀ c, 2 ≤ c → c < s.clusterCount + 2 → s.volumeLba + dataStart s.bpb ≤ fat16ClusterToLba s c ∧
    fat16ClusterToLba s c + s.bpb.sectorsPerCluster ≤ s.volumeLba + s.bpb.totalSectors
  allocates : ∀ disk, ∃ rounds r, fat16AllocateLoop { s with disk := disk } rounds = some r ∧ OncePerCluster s.clusterCount r
  totals : ∃ rounds r, fat16TotalLoop s rounds = some r ∧ r.1 = List.range' 2 s.clusterCount

/-- The partition starts so near to sector 0 that its start takes no cluster from the data area, the
FAT has an entry for every cluster, and their numbers stay below 65535. -/
def Fits (s : Fat16) : Prop :=
  s.volumeLba ≤ (s.bpb.totalSectors - dataStart s.bpb) % s.bpb.sectorsPerCluster ∧
    2 * ownClusters s.bpb + 4 ≤ 512 * s.bpb.fatSize16 ∧ ownClusters s.bpb ≤ 65533

section

variable {stop : Nat → Bool} {bound c : Nat}

theorem scan_ends (hbound : bound < 2 ^ 16) (hc : c ≤ bound) :
    ∃ rounds k found, fat16Scan stop bound rounds c = some (List.range' c k, found) ∧
      c + k ≤ bound ∧
      (found = none → c + k = bound) ∧ ∀ x, found = some x → x + 1 = c + k ∧ c ≤ x ∧
      stop x = true := by
  induction hn : bound - c generalizing c with
  | zero =>
    refine ⟨1, 0, none, ?_, by omega, fun _ => by omega, by simp⟩
    unfold fat16Scan
    rw [if_neg (by omega)]
    rfl
  | succ n ih =>
    by_cases hstop : stop c = true
    · refine ⟨1, 1, some c, ?_, by omega, by simp, ?_⟩
      · unfold fat16Scan
        rw [if_pos (by omega), if_pos hstop]
        rfl
      · rintro x ⟨⟩
        exact ⟨rfl, Nat.le_refl _, hstop⟩
    · obtain ⟨rounds, k, found, hscan, hle, hnone, hsome⟩ := @ih (c + 1) (by omega) (by omega)
      refine ⟨rounds + 1, k + 1, found, ?_, by omega, fun h => ?_, fun x hx => ?_⟩
      · unfold fat16Scan
        rw [if_pos (by omega), if_neg hstop, Nat.mod_eq_of_lt (by omega), hscan, List.range'_succ]
        rfl
      · have := hnone h
        omega
      · obtain ⟨h1, h2, h3⟩ := hsome x hx
        exact ⟨by omega, by omega, h3⟩

theorem scan_never (hbound : 2 ^ 16 ≤ bound) (hstop : ∀ x, stop x = false) (rounds : Nat)
    (hc : c < 2 ^ 16) :
    fat16Scan stop bound rounds c = none := by
  induction rounds generalizing c with
  | zero => rfl
  | succ rounds ih =>
    unfold fat16Scan
    rw [if_pos (by omega), hstop, if_neg Bool.false_ne_true, ih (Nat.mod_lt _ (by decide))]
    rfl

theorem scan_of_le {bound : Nat} (h : bound ≤ c) {rounds : Nat} {r : List Nat × Option Nat}
    (hr : fat16Scan stop bound rounds c = some r) : r = ([], none) := by
  cases rounds with
  | zero => cases hr
  | succ rounds =>
    unfold fat16Scan at hr
    rw [if_neg (by omega)] at hr
    exact (Option.some.inj hr).symm

end

structure Accepted (s : Fat16) : Prop where
  spc : 0 < s.bpb.sectorsPerCluster
  size : s.bpb.bytesPerSector = 512
  fat : 0 < s.bpb.fatSize16
  total : s.bpb.totalSectors < 2 ^ 32
  data : s.dataLba = s.volumeLba + dataStart s.bpb
  room : s.volumeLba + dataStart s.bpb < s.bpb.totalSectors
  count : s.clusterCount = (s.bpb.totalSectors - (s.volumeLba + dataStart s.bpb)) / s.bpb.sectorsPerCluster

theorem accepted_of_init {hint : Int32} {m s : Fat16} (h : fat16Init hint m = (true, s)) :
    Accepted s := by
  unfold fat16Init at h
  dsimp only at h
  split at h
  · cases h
  rename_i hvalid
  push Not at hvalid
  obtain ⟨hsize, hspc, hfatsize0⟩ := hvalid
  split at h
  · cases h
  rename_i hroom
  have hv : hint.toInt.toNat < 2 ^ 31 := by
    have := Int32.toInt_lt hint
    omega
  generalize hint.toInt.toNat = v at *
  have hreserved := Block.u16_lt (m.disk v) 14
  have hfats := UInt8.toNat_lt ((m.disk v).byte 16)
  have hroot := Block.u16_lt (m.disk v) 17
  have hfatsize := Block.u16_lt (m.disk v) 22
  have htotal : (Fat16Bpb.ofSector (m.disk v)).totalSectors < 2 ^ 32 := by
    have h16 := Block.u16_lt (m.disk v) 19
    have h32 := Block.u32_lt (m.disk v) 32
    unfold Fat16Bpb.totalSectors Fat16Bpb.ofSector
    dsimp only
    split <;> omega
  have hfat : (Fat16Bpb.ofSector (m.disk v)).fatCount * (Fat16Bpb.ofSector (m.disk v)).fatSize16 ≤
      255 * 65535 :=
    Nat.mul_le_mul (Nat.le_of_lt_succ hfats) (Nat.le_of_lt_succ hfatsize)
  have hdata : w32 (w32 (w32 (v + (Fat16Bpb.ofSector (m.disk v)).reservedSectorCount) +
      (Fat16Bpb.ofSector (m.disk v)).fatCount * (Fat16Bpb.ofSector (m.disk v)).fatSize16) +
      ((Fat16Bpb.ofSector (m.disk v)).rootEntryCount * 32 + ((Fat16Bpb.ofSector (m.disk v)).bytesPerSector - 1)) /
        (Fat16Bpb.ofSector (m.disk v)).bytesPerSector) = v + dataStart (Fat16Bpb.ofSector (m.disk v)) := by
    have hr : (Fat16Bpb.ofSector (m.disk v)).reservedSectorCount < 65536 := hreserved
    have hroot : (Fat16Bpb.ofSector (m.disk v)).rootEntryCount < 65536 := hroot
    rw [hsize]
    unfold dataStart w32
    omega
  rw [hdata] at h hroom
  obtain rfl := (Prod.mk.inj h).2
  exact ⟨Nat.pos_of_ne_zero hspc, hsize, Nat.pos_of_ne_zero hfatsize0, htotal, rfl,
    Nat.not_le.mp hroom, rfl⟩

section

variable {s : Fat16}

theorem sub_div_eq_iff {n v k : Nat} (hk : 0 < k) (hv : v ≤ n) :
    (n - v) / k = n / k ↔ v ≤ n % k := by
  have hn := Nat.div_add_mod n k
  have hr := Nat.mod_lt n hk
  constructor
  · intro h
    have h1 := Nat.div_mul_le_self (n - v) k
    rw [h, Nat.mul_comm] at h1
    omega
  · intro h
    refine Nat.div_eq_of_lt_le ?_ ?_
    · rw [Nat.mul_comm]
      omega
    · rw [Nat.mul_comm, Nat.mul_succ]
      omega

theorem count_iff (h : Accepted s) : s.clusterCount = ownClusters s.bpb ↔
    s.volumeLba ≤ (s.bpb.totalSectors - dataStart s.bpb) % s.bpb.sectorsPerCluster := by
  have hroom := h.room
  rw [h.count, ← sub_div_eq_iff h.spc (by omega)]
  unfold ownClusters
  rw [Nat.sub_sub, Nat.add_comm s.volumeLba]

theorem sectors_inside (h : Accepted s) {c : Nat} (h2 : 2 ≤ c) (hc : c < s.clusterCount + 2) :
    s.volumeLba + dataStart s.bpb ≤ fat16ClusterToLba s c ∧
      fat16ClusterToLba s c + s.bpb.sectorsPerCluster ≤ s.volumeLba + s.bpb.totalSectors := by
  have hroom := h.room
  have htotal := h.total
  have hspc := h.spc
  have hcount : s.clusterCount * s.bpb.sectorsPerCluster ≤ s.bpb.totalSectors - (s.volumeLba + dataStart s.bpb) := by
    rw [h.count]
    exact Nat.div_mul_le_self _ _
  have hle : (c - 2 + 1) * s.bpb.sectorsPerCluster ≤ s.clusterCount * s.bpb.sectorsPerCluster :=
    Nat.mul_le_mul_right _ (by omega)
  rw [Nat.add_mul, Nat.one_mul] at hle
  have hsmall : c - 2 ≤ (c - 2) * s.bpb.sectorsPerCluster := Nat.le_mul_of_pos_right _ hspc
  have hlow : w32 (c + (2 ^ 32 - 2)) = c - 2 := by
    unfold w32
    omega
  unfold fat16ClusterToLba
  rw [hlow, h.data]
  unfold w32
  omega

theorem allocate_once (hcount : s.clusterCount ≤ 65533) (disk : Nat → Sector) :
    ∃ rounds r, fat16AllocateLoop { s with disk := disk } rounds = some r ∧
      OncePerCluster s.clusterCount r := by
  have hbound : w32 (s.clusterCount + 2) = s.clusterCount + 2 := by
    unfold w32
    omega
  obtain ⟨rounds, k, found, hscan, hle, hnone, hsome⟩ := @scan_ends
    (fun c => fat16GetFatEntry { s with disk := disk } c == 0) (s.clusterCount + 2) 2 (by omega) (by omega)
  refine ⟨rounds, (List.range' 2 k, found), ?_, ?_⟩
  · unfold fat16AllocateLoop
    rw [← hscan, hbound]
  · unfold OncePerCluster
    rw [List.length_range']
    refine ⟨rfl, by omega, fun h => ?_, fun c hc => ?_⟩
    · have := hnone h
      omega
    · have := hsome c hc
      omega

theorem total_once (hcount : s.clusterCount ≤ 65533) :
    ∃ rounds r, fat16TotalLoop s rounds = some r ∧ r.1 = List.range' 2 s.clusterCount := by
  have hbound : w32 (s.clusterCount + 2) % 2 ^ 16 = s.clusterCount + 2 := by
    unfold w32
    omega
  obtain ⟨rounds, k, found, hscan, hle, hnone, hsome⟩ :=
    @scan_ends (fun _ => false) (s.clusterCount + 2) 2 (by omega) (by omega)
  refine ⟨rounds, (List.range' 2 k, found), ?_, ?_⟩
  · unfold fat16TotalLoop
    rw [← hscan, hbound]
  · cases found with
    | none =>
      have hk : k = s.clusterCount := by
        have := hnone rfl
        omega
      rw [hk]
    | some x => exact absurd (hsome x rfl).2.2 Bool.false_ne_true

/-- On a volume with at most 65533 clusters `fat16_allocate_cluster` returns, whatever its table
holds. -/
theorem allocateCluster_returns (hcount : s.clusterCount ≤ 65533) (disk : Nat → Sector) :
    ∃ rounds r, fat16AllocateCluster { s with disk := disk } rounds = some r := by
  obtain ⟨rounds, r, hloop, -⟩ := allocate_once hcount disk
  exact ⟨rounds, _, congrArg (Option.map _) hloop⟩

/-- On such a volume `fat16_total_bytes` returns the bytes of all its clusters. -/
theorem totalBytes_returns (hcount : s.clusterCount ≤ 65533) (hready : s.ready = true)
    (hsome : s.clusterCount ≠ 0) :
    ∃ rounds free, fat16TotalBytes s rounds =
      some (s.clusterCount * (s.bpb.sectorsPerCluster * s.bpb.bytesPerSector), free,
        s.bpb.sectorsPerCluster * s.bpb.bytesPerSector) := by
  obtain ⟨rounds, r, hloop, -⟩ := total_once hcount
  refine ⟨rounds, (r.1.countP fun cluster => fat16GetFatEntry s cluster == 0) *
    (s.bpb.sectorsPerCluster * s.bpb.bytesPerSector), ?_⟩
  unfold fat16TotalBytes
  simp only [hready, hloop, hsome, Bool.not_true, Bool.false_or, beq_iff_eq, if_false,
    Option.map_some]

theorem count_le_of_allocates (htotal : s.clusterCount < 2 ^ 32)
    (hsize : s.bpb.bytesPerSector = 512)
    (h : ∀ disk, ∃ rounds r, fat16AllocateLoop { s with disk := disk } rounds = some r ∧
      OncePerCluster s.clusterCount r) :
    s.clusterCount ≤ 65533 := by
  by_contra hbig
  obtain ⟨rounds, r, hloop, -, -, hall, -⟩ := h fun _ _ => 0xFF
  unfold fat16AllocateLoop at hloop
  by_cases hbound : 2 ^ 16 ≤ w32 (s.clusterCount + 2)
  · rw [scan_never hbound _ rounds (by decide)] at hloop
    · cases hloop
    · intro x
      have hoff : x * 2 % 512 ≤ 510 := by omega
      unfold fat16GetFatEntry
      dsimp only
      rw [hsize, if_pos hoff]
      have hbyte : ∀ i, i < 512 → Block.byte (fun _ => 0xFF : Sector) i = 0xFF :=
        fun i hi => dif_pos hi
      unfold Block.u16
      rw [hbyte _ (by omega), hbyte _ (by omega)]
      rfl
  · have hsmall : w32 (s.clusterCount + 2) ≤ 2 := by
      unfold w32 at hbound ⊢
      omega
    obtain rfl := scan_of_le hsmall hloop
    have := hall rfl
    simp at this
    omega

theorem sound_iff_fits (h : Accepted s) : Sound s ↔ Fits s := by
  have hcount := count_iff h
  constructor
  · intro hs
    have hown := hs.count
    have hlt : s.clusterCount < 2 ^ 32 := by
      rw [h.count]
      exact lt_of_le_of_lt (Nat.div_le_self _ _) (by have := h.total; omega)
    refine ⟨hcount.mp hown, ?_, hown ▸ count_le_of_allocates hlt h.size hs.allocates⟩
    rw [← hown]
    rcases Nat.eq_zero_or_pos s.clusterCount with hzero | hpos
    · have := h.fat
      omega
    · have := hs.entry (s.clusterCount + 1) (by omega) (by omega)
      omega
  · rintro ⟨hv, hfat, hnum⟩
    have hown := hcount.mpr hv
    rw [← hown] at hfat hnum
    exact ⟨hown, fun c _ hc => by omega, fun c h2 hc => sectors_inside h h2 hc, allocate_once hnum,
      total_once hnum⟩

end

/-- On an accepted volume the geometry is right exactly when the volume fits. -/
theorem geometry_iff {hint : Int32} {m s : Fat16} (h : fat16Init hint m = (true, s)) :
    Sound s ↔ Fits s :=
  sound_iff_fits (accepted_of_init h)

def smallBoot : Sector :=
  (((((Block.zero.patch 11 [0, 2, 1, 1, 0]).patch 16 [1]).patch 17 [16, 0]).patch 19 [200, 0]).patch 22 [1, 0])

def smallVolume (hint : Int32) : Bool × Fat16 :=
  fat16Init hint ⟨fun _ => smallBoot, Fat16Bpb.ofSector Block.zero, 0, 0, 0, 0, 0, 0, false⟩

theorem smallVolume_accepted : (smallVolume 0).1 = true ∧ (smallVolume 63).1 = true := by decide

theorem geometry_iff_smallVolume : Sound (smallVolume 0).2 ↔ Fits (smallVolume 0).2 :=
  geometry_iff (Prod.ext smallVolume_accepted.1 rfl)

/-- Behind a partition start of 63 sectors the same volume loses 63 of its clusters. -/
theorem not_sound_partition : (smallVolume 63).1 = true ∧ ¬ Sound (smallVolume 63).2 := by
  refine ⟨smallVolume_accepted.2, fun h => ?_⟩
  have hcount := h.count
  revert hcount
  decide

end Monios.Analysis.FatGeometry
