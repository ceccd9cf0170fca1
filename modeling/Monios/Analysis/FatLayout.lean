import Monios.Analysis.FatAccess
import Monios.Library.Ensures

/-!
# What the calls of the FAT32 driver change on the disk

On a volume whose regions lie one behind the other (`FatLayout`) a write goes either to all copies
of one FAT entry or to the sectors of the clusters. `Touches b A D` says what a call has changed:
the entries of the clusters in `A` and the bytes of the clusters in `D`.
-/

set_option autoImplicit false

namespace Monios.Analysis

open Monios.Library Monios.Model

def dataEnd (b : Fat32) : Nat := b.dataLba + b.clusterCount * b.bpb.sectorsPerCluster

/-- The regions of a volume lie one behind the other: the FATs, with an entry for every cluster, the
clusters, and the log. -/
structure FatLayout (b : Fat32) : Prop where
  spc : 0 < b.bpb.sectorsPerCluster
  small : SmallVolume b
  copies : 0 < b.bpb.fatCount
  room : b.clusterCount + 2 ≤ 128 * b.bpb.fatSize32
  fats : b.fatLba + b.bpb.fatCount * b.bpb.fatSize32 ≤ b.dataLba
  clusters : dataEnd b ≤ 2 ^ 32
  log : b.walOn = true → dataEnd b ≤ b.walLogLba ∧ b.walLogLba + walSectors ≤ 2 ^ 32 ∧ b.walMax ≤ 170

theorem dataLba_le (b : Fat32) : b.dataLba ≤ dataEnd b := Nat.le_add_right _ _

def InData (b : Fat32) (x : Nat) : Prop := b.dataLba ≤ x ∧ x < dataEnd b

def copyEntry (b : Fat32) (disk : Nat → Sector) (k c : Nat) : Nat :=
  fat32Masked ((disk (fat32FatSector b k c)).u32 (fat32FatOffset c))

def CopiesAgree (b : Fat32) (disk : Nat → Sector) : Prop :=
  ∀ k c, k < b.bpb.fatCount → c < b.clusterCount + 2 → copyEntry b disk k c = copyEntry b disk 0 c

theorem fatOffset_mod (c : Nat) : fat32FatOffset c = 4 * (c % 128) := by
  unfold fat32FatOffset w32
  omega

section

variable {b s s' t : Fat32} {k c : Nat}

namespace FatLayout

theorem fatSector_eq (h : FatLayout b) (hk : k < b.bpb.fatCount) (hc : c < b.clusterCount + 2) :
    fat32FatSector b k c = b.fatLba + k * b.bpb.fatSize32 + c / 128 ∧
      c / 128 < b.bpb.fatSize32 := by
  have hroom := h.room
  have hindex : c / 128 < b.bpb.fatSize32 := by omega
  have hcopy : k * b.bpb.fatSize32 + b.bpb.fatSize32 ≤ b.bpb.fatCount * b.bpb.fatSize32 := by
    rw [← Nat.succ_mul]
    exact Nat.mul_le_mul_right _ hk
  have hsmall := h.small
  unfold SmallVolume fat32ClusterBad at hsmall
  have hoffset : w32 (c * 4) / 512 = c / 128 := by
    unfold w32
    omega
  have hfats := h.fats
  have hend := h.clusters
  unfold dataEnd at hend
  refine ⟨?_, hindex⟩
  unfold fat32FatSector
  rw [hoffset]
  exact Nat.mod_eq_of_lt (by omega)

theorem fatSector_lt (h : FatLayout b) (hk : k < b.bpb.fatCount) (hc : c < b.clusterCount + 2) :
    fat32FatSector b k c < b.dataLba := by
  obtain ⟨heq, hindex⟩ := h.fatSector_eq hk hc
  have hcopy : k * b.bpb.fatSize32 + b.bpb.fatSize32 ≤ b.bpb.fatCount * b.bpb.fatSize32 := by
    rw [← Nat.succ_mul]
    exact Nat.mul_le_mul_right _ hk
  have hfats := h.fats
  omega

theorem fatSector_inj (h : FatLayout b) {l d : Nat} (hk : k < b.bpb.fatCount)
    (hl : l < b.bpb.fatCount) (hc : c < b.clusterCount + 2) (hd : d < b.clusterCount + 2)
    (heq : fat32FatSector b k c = fat32FatSector b l d) :
    k = l ∧ c / 128 = d / 128 := by
  obtain ⟨hkc, hcs⟩ := h.fatSector_eq hk hc
  obtain ⟨hld, hds⟩ := h.fatSector_eq hl hd
  have hsum : k * b.bpb.fatSize32 + c / 128 = l * b.bpb.fatSize32 + d / 128 := by omega
  have hdiv := congrArg (fun n => n / b.bpb.fatSize32) hsum
  have hpos : 0 < b.bpb.fatSize32 := by omega
  simp only [Nat.mul_comm _ b.bpb.fatSize32, Nat.mul_add_div hpos, Nat.div_eq_of_lt hcs,
    Nat.div_eq_of_lt hds,
    Nat.add_zero] at hdiv
  subst hdiv
  exact ⟨rfl, by omega⟩

theorem clusterToLba_eq (h : FatLayout b) (hc : fat32InRange b c = true) :
    fat32ClusterToLba b c = b.dataLba + (c - 2) * b.bpb.sectorsPerCluster ∧
      (c - 2) * b.bpb.sectorsPerCluster + b.bpb.sectorsPerCluster ≤
      b.clusterCount * b.bpb.sectorsPerCluster := by
  simp only [fat32InRange, Bool.and_eq_true, decide_eq_true_eq] at hc
  have hlast : (c - 2) * b.bpb.sectorsPerCluster + b.bpb.sectorsPerCluster ≤
      b.clusterCount * b.bpb.sectorsPerCluster := by
    rw [← Nat.succ_mul]
    exact Nat.mul_le_mul_right _ (by omega)
  have hsmall := h.small
  unfold SmallVolume fat32ClusterBad at hsmall
  have hend := h.clusters
  unfold dataEnd at hend
  have hspc := h.spc
  have hback : w32 (c + (2 ^ 32 - 2)) = c - 2 := by
    unfold w32
    omega
  refine ⟨?_, hlast⟩
  unfold fat32ClusterToLba
  rw [hback]
  exact Nat.mod_eq_of_lt (by omega)

theorem clusterSector_eq (h : FatLayout b) (hc : fat32InRange b c = true) {i : Nat}
    (hi : i < b.bpb.sectorsPerCluster) :
    w32 (fat32ClusterToLba b c + i) = b.dataLba + (c - 2) * b.bpb.sectorsPerCluster + i ∧
      InData b (w32 (fat32ClusterToLba b c + i)) := by
  obtain ⟨hstart, hlast⟩ := h.clusterToLba_eq hc
  have hend := h.clusters
  unfold dataEnd at hend
  have heq : w32 (fat32ClusterToLba b c + i) = b.dataLba + (c - 2) * b.bpb.sectorsPerCluster +
      i := by
    rw [hstart]
    exact Nat.mod_eq_of_lt (by omega)
  refine ⟨heq, ?_⟩
  unfold InData dataEnd
  omega

end FatLayout

/-- A state of the driver in the middle of a call on the volume `b`: the FAT cache, if it is valid,
is a sector of the first FAT as it stands on the disk. -/
structure AtWork (b s : Fat32) : Prop where
  bpb : s.bpb = b.bpb
  fatLba : s.fatLba = b.fatLba
  dataLba : s.dataLba = b.dataLba
  clusterCount : s.clusterCount = b.clusterCount
  walOn : s.walOn = b.walOn
  walLogLba : s.walLogLba = b.walLogLba
  walMax : s.walMax = b.walMax
  cache : ∀ lba sector, s.fatCache = some (lba, sector) → b.fatLba ≤ lba → lba < b.fatLba + b.bpb.fatSize32 →
    sector = s.disk lba

/-- From `s` to `t` nothing but the disk, the FAT cache and the log has changed: on the disk the FAT
entries of the clusters in `A`, and the bytes of the clusters in `D`. -/
structure Touches (b : Fat32) (A : Nat → Prop) (D : Nat → Nat → Prop) (s t : Fat32) : Prop where
  work : AtWork b t
  rest : ∃ disk trace cache next seq, t =
    { s with disk := disk, trace := trace, fatCache := cache, walNext := next, walSeq := seq }
  entries : ∀ k c, k < b.bpb.fatCount → c < b.clusterCount + 2 → ¬ A c → copyEntry b t.disk k c = copyEntry b s.disk k c
  bytes : ∀ x, InData b x → ∀ i, ¬ D x i → (t.disk x).byte i = (s.disk x).byte i
  mirrored : CopiesAgree b s.disk → CopiesAgree b t.disk

variable {A A' : Nat → Prop} {D D' : Nat → Nat → Prop}

namespace Touches

theorem refl (h : AtWork b s) : Touches b A D s s :=
  ⟨h, ⟨_, _, _, _, _, rfl⟩, fun _ _ _ _ _ => rfl, fun _ _ _ _ => rfl, id⟩

theorem trans (h : Touches b A D s s') (h' : Touches b A D s' t) : Touches b A D s t := by
  have hwork := h'.work
  obtain ⟨disk, trace, cache, next, seq, rfl⟩ := h.rest
  obtain ⟨disk', trace', cache', next', seq', rfl⟩ := h'.rest
  exact ⟨hwork, ⟨_, _, _, _, _, rfl⟩, fun k c hk hc hA => (h'.entries k c hk hc hA).trans (h.entries k c hk hc hA),
    fun x hx i hD => (h'.bytes x hx i hD).trans (h.bytes x hx i hD), h'.mirrored ∘ h.mirrored⟩

theorem mono (h : Touches b A D s t) (hA : ∀ c, A c → A' c) (hD : ∀ x i, D x i → D' x i) :
    Touches b A' D' s t :=
  ⟨h.work, h.rest, fun k c hk hc hn => h.entries k c hk hc (mt (hA c) hn),
    fun x hx i hn => h.bytes x hx i (mt (hD x i) hn), h.mirrored⟩

end Touches

namespace AtWork

theorem inRange (h : AtWork b s) (c : Nat) : fat32InRange s c = fat32InRange b c := by
  simp only [fat32InRange, h.clusterCount]

theorem clusterToLba (h : AtWork b s) (c : Nat) :
    fat32ClusterToLba s c = fat32ClusterToLba b c := by
  simp only [fat32ClusterToLba, h.dataLba, h.bpb]

theorem fatSector (h : AtWork b s) (k c : Nat) : fat32FatSector s k c = fat32FatSector b k c := by
  simp only [fat32FatSector, h.fatLba, h.bpb]

theorem fatEntry (h : AtWork b s) (c : Nat) : fatEntry s c = copyEntry b s.disk 0 c := by
  unfold Monios.Analysis.fatEntry copyEntry
  rw [h.fatSector]

theorem withCache (h : AtWork b s) {cache : Option (Nat × Sector)}
    (hcache : ∀ lba sector, cache = some (lba, sector) → b.fatLba ≤ lba →
      lba < b.fatLba + b.bpb.fatSize32 →
      sector = s.disk lba) : AtWork b (withCache s cache) :=
  ⟨h.bpb, h.fatLba, h.dataLba, h.clusterCount, h.walOn, h.walLogLba, h.walMax, hcache⟩

end AtWork

def Looks (b s t : Fat32) : Prop := AtWork b t ∧ ∃ cache, t = withCache s cache

namespace Looks

theorem refl (h : AtWork b s) : Looks b s s := ⟨h, s.fatCache, rfl⟩

theorem trans (h : Looks b s s') (h' : Looks b s' t) : Looks b s t := by
  obtain ⟨-, cache, rfl⟩ := h
  obtain ⟨hwork, cache', rfl⟩ := h'
  exact ⟨hwork, cache', rfl⟩

theorem disk (h : Looks b s t) : t.disk = s.disk := by
  obtain ⟨-, cache, rfl⟩ := h
  rfl

theorem touches (h : Looks b s t) : Touches b A D s t := by
  obtain ⟨hwork, cache, rfl⟩ := h
  exact ⟨hwork, ⟨_, _, _, _, _, rfl⟩, fun _ _ _ _ _ => rfl, fun _ _ _ _ => rfl, id⟩

end Looks

theorem getFatEntry_any (h : AtWork b s) (c : Nat) : ∃ sector t,
    fat32GetFatEntry c s = some (fat32Masked (sector.u32 (fat32FatOffset c)), t) ∧ Looks b s t ∧
      (b.fatLba ≤ fat32FatSector b 0 c → fat32FatSector b 0 c < b.fatLba + b.bpb.fatSize32 →
        sector = s.disk (fat32FatSector b 0 c)) := by
  have hread : ∀ sector, (b.fatLba ≤ fat32FatSector b 0 c → fat32FatSector b 0 c < b.fatLba + b.bpb.fatSize32 →
      sector = s.disk (fat32FatSector b 0 c)) → Looks b s (withCache s (some (fat32FatSector b 0 c, sector))) := by
    intro sector hsector
    refine ⟨h.withCache ?_, _, rfl⟩
    rintro lba image ⟨⟩
    exact hsector
  have hdisk : ∀ sector, sector = s.disk (fat32FatSector b 0 c) → b.fatLba ≤ fat32FatSector b 0 c →
      fat32FatSector b 0 c < b.fatLba + b.bpb.fatSize32 → sector = s.disk (fat32FatSector b 0 c) := fun _ heq _ _ => heq
  unfold fat32GetFatEntry
  rw [h.fatSector]
  cases hcache : s.fatCache with
  | none => exact ⟨_, _, rfl, hread _ (hdisk _ rfl), hdisk _ rfl⟩
  | some p =>
    obtain ⟨lba, sector⟩ := p
    dsimp only
    by_cases hlba : lba = fat32FatSector b 0 c
    · rw [if_pos hlba]
      have hsector := h.cache lba sector hcache
      rw [hlba] at hsector
      exact ⟨_, _, rfl, hread _ hsector, hsector⟩
    · rw [if_neg hlba]
      exact ⟨_, _, rfl, hread _ (hdisk _ rfl), hdisk _ rfl⟩

theorem getFatEntry_looks (hb : FatLayout b) (h : AtWork b s) (hc : c < b.clusterCount + 2) :
    ∃ t, fat32GetFatEntry c s = some (copyEntry b s.disk 0 c, t) ∧ Looks b s t := by
  obtain ⟨sector, t, hrun, hlooks, hsector⟩ := getFatEntry_any h c
  obtain ⟨heq, hindex⟩ := hb.fatSector_eq hb.copies hc
  rw [hsector (by omega) (by omega)] at hrun
  exact ⟨t, hrun, hlooks⟩

theorem loggedWriteSector_disk (hb : FatLayout b) (h : AtWork b s) (lba : Nat) (buffer : Sector) :
    ∃ disk trace next seq, fat32LoggedWriteSector s lba buffer =
      { s with disk := disk, trace := trace, walNext := next, walSeq := seq } ∧
      ∀ x, x < dataEnd b → disk x = if x = lba then buffer else s.disk x := by
  unfold fat32LoggedWriteSector
  by_cases hlogs : walLogs s lba = true
  · rw [if_pos hlogs]
    have hon : b.walOn = true := by
      unfold walLogs at hlogs
      simp only [Bool.and_eq_true] at hlogs
      rw [← h.walOn]
      exact hlogs.1.1.1
    obtain ⟨hstart, hend, hmax⟩ := hb.log hon
    unfold walSectors at hend
    have hidx : (if s.walMax ≤ s.walNext then 0 else s.walNext) < 170 := by
      rw [h.walMax]
      split <;> omega
    refine ⟨_, _, _, _, rfl, fun x hx => ?_⟩
    dsimp only [walWriteHeader, ataWriteSector, ataReadSector, walRecHdrLba]
    generalize (if s.walMax ≤ s.walNext then 0 else s.walNext) = idx at hidx
    rw [h.walLogLba]
    unfold walRecSectors
    have hslot : ∀ j, j < 3 → x ≠ w32 (b.walLogLba + 1 + idx * 3 + j) := by
      intro j hj
      have hsum : w32 (b.walLogLba + 1 + idx * 3 + j) = b.walLogLba + 1 + idx * 3 + j :=
        Nat.mod_eq_of_lt (by omega)
      omega
    have h0 := hslot 0 (by omega)
    have h1 := hslot 1 (by omega)
    have h2 := hslot 2 (by omega)
    rw [Nat.add_zero] at h0
    rw [w32_w32_add, w32_w32_add, Function.update_of_ne (by omega), Function.update_of_ne h0]
    by_cases hlba : x = lba
    · rw [if_pos hlba, hlba, Function.update_self]
    · rw [if_neg hlba, Function.update_of_ne hlba, Function.update_of_ne h2,
        Function.update_of_ne h1,
        Function.update_of_ne h0]
  · rw [if_neg hlogs]
    refine ⟨_, _, _, _, rfl, fun x _ => ?_⟩
    by_cases hlba : x = lba
    · rw [if_pos hlba, hlba]
      exact ataWriteSector_self _ _ _
    · rw [if_neg hlba]
      exact ataWriteSector_of_ne hlba

theorem touches_of_write (hb : FatLayout b) (h : AtWork b s) {lba : Nat} {buffer : Sector}
    (hlba : InData b lba) (hbytes : ∀ i, ¬ D lba i → buffer.byte i = (s.disk lba).byte i)
    (hwrite : ∃ disk trace next seq, t =
      { s with disk := disk, trace := trace, walNext := next, walSeq := seq } ∧
      ∀ x, x < dataEnd b → disk x = if x = lba then buffer else s.disk x) : Touches b A D s t := by
  obtain ⟨disk, trace, next, seq, rfl, hdisk⟩ := hwrite
  have hfat : ∀ x, x < b.dataLba → disk x = s.disk x := by
    intro x hx
    have hend := dataLba_le b
    rw [hdisk x (by omega), if_neg (by unfold InData at hlba; omega)]
  have hentry : ∀ k c, k < b.bpb.fatCount → c < b.clusterCount + 2 → copyEntry b disk k c =
      copyEntry b s.disk k c := by
    intro k c hk hc
    unfold copyEntry
    rw [hfat _ (hb.fatSector_lt hk hc)]
  refine ⟨⟨h.bpb, h.fatLba, h.dataLba, h.clusterCount, h.walOn, h.walLogLba, h.walMax, ?_⟩,
    ⟨_, _, _, _, _, rfl⟩,
    fun k c hk hc _ => hentry k c hk hc, fun x hx i hD => ?_, fun hmirror k c hk hc => ?_⟩
  · intro x sector hcache hlow hhigh
    have hcopy : b.bpb.fatSize32 ≤ b.bpb.fatCount * b.bpb.fatSize32 :=
      Nat.le_mul_of_pos_left _ hb.copies
    have hfats := hb.fats
    rw [h.cache x sector hcache hlow hhigh]
    exact (hfat x (by omega)).symm
  · change (disk x).byte i = _
    rw [hdisk x hx.2]
    by_cases hx' : x = lba
    · rw [if_pos hx', hx']
      exact hbytes i (hx' ▸ hD)
    · rw [if_neg hx']
  · change copyEntry b disk k c = copyEntry b disk 0 c
    rw [hentry k c hk hc, hentry 0 c hb.copies hc]
    exact hmirror k c hk hc

theorem loggedWriteSector_touches (hb : FatLayout b) (h : AtWork b s) {lba : Nat} {buffer : Sector}
    (hlba : InData b lba) (hbytes : ∀ i, ¬ D lba i → buffer.byte i = (s.disk lba).byte i) :
    Touches b A D s (fat32LoggedWriteSector s lba buffer) :=
  touches_of_write hb h hlba hbytes (loggedWriteSector_disk hb h lba buffer)

theorem ataWriteSector_touches (hb : FatLayout b) (h : AtWork b s) {lba : Nat} {buffer : Sector}
    (hlba : InData b lba) (hbytes : ∀ i, ¬ D lba i → buffer.byte i = (s.disk lba).byte i) :
    Touches b A D s (ataWriteSector s lba buffer) := by
  refine touches_of_write hb h hlba hbytes ⟨_, _, _, _, rfl, fun x _ => ?_⟩
  by_cases hx : x = lba
  · rw [if_pos hx, hx]
    exact Function.update_self _ _ _
  · rw [if_neg hx]
    exact Function.update_of_ne hx _ _

theorem ataWriteSectors_touches (hb : FatLayout b) (h : AtWork b s) {lba : Nat}
    (hlba : lba < 2 ^ 32) {buffers : List Sector}
    (hdata : ∀ j, j < buffers.length → InData b (w32 (lba + j)) ∧ ∀ i, D (w32 (lba + j)) i) :
    Touches b A D s (ataWriteSectors s lba buffers) := by
  induction buffers generalizing s lba with
  | nil => exact .refl h
  | cons buffer rest ih =>
    have hfirst := hdata 0 (by simp)
    have hself : w32 (lba + 0) = lba := Nat.mod_eq_of_lt hlba
    rw [hself] at hfirst
    have hwrite : Touches b A D s (ataWriteSector s lba buffer) :=
      ataWriteSector_touches hb h hfirst.1 fun i hn => absurd (hfirst.2 i) hn
    refine hwrite.trans (ih hwrite.work (w32_lt _) fun j hj => ?_)
    rw [w32_w32_add, Nat.add_assoc, Nat.add_comm 1 j]
    exact hdata (j + 1) (by simpa using hj)

theorem writeCluster_touches (hb : FatLayout b) (h : AtWork b s) (hc : fat32InRange b c = true)
    {buffers : List Sector} (hlen : buffers.length ≤ b.bpb.sectorsPerCluster) :
    Touches b A (fun x _ => x ∈ clusterLbas b c) s
      (ataWriteSectors s (fat32ClusterToLba b c) buffers) := by
  refine ataWriteSectors_touches hb h (w32_lt _) fun j hj => ?_
  have hj' : j < b.bpb.sectorsPerCluster := by omega
  exact ⟨(hb.clusterSector_eq hc hj').2, fun _ => List.mem_map.mpr ⟨j, List.mem_range.mpr hj', rfl⟩⟩

end

end Monios.Analysis
