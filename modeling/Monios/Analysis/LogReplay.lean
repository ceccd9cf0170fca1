import Monios.Analysis.FatAccess

/-!
# What mounting a FAT32 volume does to its disk

`fat32_init` finds the volume, replays the records of the write-ahead log and writes a new log
header. `fat32Init_eq_true` lists the geometry of a mounted volume, and `fat32Init_disk` the sectors
a mount changes: the first sector of the log, and the targets of the records that are replayed.
-/

set_option autoImplicit false

namespace Monios.Analysis

open Monios.Library Monios.Model

variable (s : Fat32)

def bootSectors (disk : Nat → Sector) (hint : Int) : List Nat :=
  let lba := fat32FirstSector hint
  [lba, (fat32FindPartition (disk lba)).getD lba, (Fat32Bpb.ofSector (disk lba)).hiddenSectors]

theorem fat32Locate_congr {d e : Nat → Sector} {hint : Int}
    (h : ∀ x ∈ bootSectors d hint, e x = d x) : fat32Locate e hint = fat32Locate d hint := by
  have hfirst : e (fat32FirstSector hint) = d (fat32FirstSector hint) :=
    h _ (by simp [bootSectors])
  have hhidden := h (Fat32Bpb.ofSector (d (fat32FirstSector hint))).hiddenSectors (by simp [bootSectors])
  unfold fat32Locate
  simp only [hfirst, hhidden]
  cases hpart : fat32FindPartition (d (fat32FirstSector hint)) with
  | none => rfl
  | some start =>
    have hstart : e start = d start := h start (by simp [bootSectors, hpart])
    simp only [hstart]

theorem bootSectors_congr {d e : Nat → Sector} {hint : Int}
    (h : ∀ x ∈ bootSectors d hint, e x = d x) : bootSectors e hint = bootSectors d hint := by
  have hfirst : e (fat32FirstSector hint) = d (fat32FirstSector hint) :=
    h _ (by simp [bootSectors])
  simp only [bootSectors, hfirst]

def LogSector (logLba lba : Nat) : Prop := ∃ k, k < walSectors ∧ lba = w32 (logLba + k)

instance (logLba lba : Nat) : Decidable (LogSector logLba lba) :=
  inferInstanceAs (Decidable (∃ k, k < walSectors ∧ lba = w32 (logLba + k)))

theorem logSector_self {logLba : Nat} (h : logLba < 2 ^ 32) : LogSector logLba logLba := by
  refine ⟨0, by decide, ?_⟩
  unfold w32
  omega

theorem walRecHdrLba_eq (i : Nat) : walRecHdrLba s i = w32 (s.walLogLba + (1 + 3 * i)) := by
  unfold walRecHdrLba walRecSectors
  congr 1
  omega

theorem logSector_inj {logLba a b : Nat} (ha : a < walSectors) (hb : b < walSectors)
    (h : w32 (logLba + a) = w32 (logLba + b)) : a = b := by
  unfold walSectors at ha hb
  unfold w32 at h
  omega

def replayCount (s : Fat32) : Nat :=
  if walHeaderMagic (ataReadSector s s.walLogLba) then walReplayLimit s else 0

def replayWrites (s : Fat32) (n : Nat) : List (Nat × Sector) :=
  (List.range n).filterMap (walReplayWrite s)

def replayDisk (s : Fat32) : Nat → Sector :=
  ((List.range (replayCount s)).foldl walReplayRecord s).disk

theorem replayWrites_congr {s t : Fat32} {n : Nat}
    (h : ∀ i, i < n → walReplayWrite t i = walReplayWrite s i) :
    replayWrites t n = replayWrites s n :=
  List.filterMap_congr fun i hi => h i (List.mem_range.mp hi)

theorem replayWrites_succ (n : Nat) :
    replayWrites s (n + 1) = replayWrites s n ++ (walReplayWrite s n).toList := by
  unfold replayWrites
  rw [List.range_succ, List.filterMap_append]
  cases h : walReplayWrite s n <;> simp [h]

theorem walReplayWrite_congr {s t : Fat32} {i : Nat} (hlog : t.walLogLba = s.walLogLba)
    (hdisk : ∀ j, j < 3 →
      t.disk (w32 (s.walLogLba + (1 + 3 * i + j))) = s.disk (w32 (s.walLogLba + (1 + 3 * i + j)))) :
    walReplayWrite t i = walReplayWrite s i := by
  have h0 := hdisk 0 (by omega)
  have h1 := hdisk 1 (by omega)
  have h2 := hdisk 2 (by omega)
  rw [Nat.add_zero] at h0
  unfold walReplayWrite ataReadSector
  simp only [walRecHdrLba_eq, hlog, w32_w32_add, Nat.add_assoc] at h0 h1 h2 ⊢
  rw [h0, h1, h2]

theorem foldl_walReplayRecord_frame (l : List Nat) :
    ∃ d tr, l.foldl walReplayRecord s = { s with disk := d, trace := tr } := by
  induction l using List.reverseRecOn with
  | nil => exact ⟨s.disk, s.trace, rfl⟩
  | append_singleton l i ih =>
    obtain ⟨d, tr, h⟩ := ih
    rw [List.foldl_append, h]
    simp only [List.foldl_cons, List.foldl_nil]
    unfold walReplayRecord
    split
    · exact ⟨_, _, rfl⟩
    · exact ⟨d, tr, rfl⟩

theorem foldl_walReplayRecord_disk {n : Nat} (hn : n ≤ 170)
    (hout : ∀ i, i < n → ∀ w, walReplayWrite s i = some w → ¬ LogSector s.walLogLba w.1) :
    ((List.range n).foldl walReplayRecord s).disk = applyWrites s.disk (replayWrites s n) := by
  induction n with
  | zero => rfl
  | succ n ih =>
    have ih := ih (by omega) fun i hi => hout i (by omega)
    obtain ⟨d, tr, hfold⟩ := foldl_walReplayRecord_frame s (List.range n)
    rw [hfold] at ih
    rw [List.range_succ, List.foldl_append, hfold, replayWrites_succ, applyWrites_append]
    simp only at ih
    subst ih
    simp only [List.foldl_cons, List.foldl_nil]
    -- the earlier slots have written outside the log, so slot `n` is as it was
    have hsame : walReplayWrite { s with disk := applyWrites s.disk (replayWrites s n), trace := tr } n
        = walReplayWrite s n := by
      refine walReplayWrite_congr (s := s) rfl ?_
      intro j hj
      apply applyWrites_of_forall_ne
      intro w hw heq
      obtain ⟨i, hi, hwi⟩ := List.mem_filterMap.mp hw
      exact hout i (by have := List.mem_range.mp hi; omega) w hwi ⟨_, by unfold walSectors; omega, heq⟩
    unfold walReplayRecord
    rw [hsame]
    cases walReplayWrite s n with
    | none => rfl
    | some w => rfl

theorem replayDisk_eq (hn : replayCount s ≤ 170)
    (hout : ∀ i, i < replayCount s → ∀ w, walReplayWrite s i = some w →
      ¬ LogSector s.walLogLba w.1) :
    replayDisk s = applyWrites s.disk (replayWrites s (replayCount s)) :=
  foldl_walReplayRecord_disk s hn hout

theorem walRecover_eq : ∃ tr b, walRecover s = { s with
        disk := Function.update (replayDisk s) s.walLogLba (walHeader walClean 0 s.walMax)
        trace := tr
        walDirtyBoot := b
        walNext := 0 } := by
  unfold walRecover replayDisk replayCount
  by_cases hmagic : walHeaderMagic (ataReadSector s s.walLogLba) = true
  · obtain ⟨d, tr, h⟩ := foldl_walReplayRecord_frame s (List.range (walReplayLimit s))
    simp only [if_pos hmagic, h]
    exact ⟨_, _, rfl⟩
  · simp only [if_neg hmagic]
    exact ⟨_, _, rfl⟩

def HasLog (bpb : Fat32Bpb) : Prop := walSectors + 32 < bpb.totalSectors - bpb.dataStart

instance (bpb : Fat32Bpb) : Decidable (HasLog bpb) :=
  inferInstanceAs (Decidable (walSectors + 32 < bpb.totalSectors - bpb.dataStart))

def logStart (volumeLba : Nat) (bpb : Fat32Bpb) : Nat :=
  w32 (volumeLba + (bpb.totalSectors - walSectors))

def dataClusters (bpb : Fat32Bpb) : Nat :=
  (bpb.totalSectors - bpb.dataStart - if HasLog bpb then walSectors else 0) / bpb.sectorsPerCluster

structure Mounted (hint : Int) (s : Fat32) : Prop where
  located : fat32Locate s.disk hint = (s.volumeLba, s.bpb, true)
  room : s.bpb.dataStart < s.bpb.totalSectors
  ready : s.ready = true
  fatLba : s.fatLba = w32 (s.volumeLba + s.bpb.reservedSectorCount)
  dataLba : s.dataLba = w32 (s.volumeLba + s.bpb.dataStart)
  clusterCount : s.clusterCount = dataClusters s.bpb
  walOn : s.walOn = decide (HasLog s.bpb)
  walLogLba : HasLog s.bpb → s.walLogLba = logStart s.volumeLba s.bpb
  walMax : HasLog s.bpb → s.walMax = 170

def beforeRecover (volumeLba : Nat) (bpb : Fat32Bpb) (s : Fat32) : Fat32 :=
  { s with
    volumeLba := volumeLba
    bpb := bpb
    fatLba := w32 (volumeLba + bpb.reservedSectorCount)
    dataLba := w32 (volumeLba + bpb.dataStart)
    walOn := false
    walLogLba := logStart volumeLba bpb
    walNext := 0
    walMax := 170
    walSeq := 0
    walDirtyBoot := false }

def mountedDisk (volumeLba : Nat) (bpb : Fat32Bpb) (s : Fat32) : Nat → Sector :=
  if HasLog bpb then
    Function.update (replayDisk (beforeRecover volumeLba bpb s)) (logStart volumeLba bpb) (walHeader walClean 0 170)
  else s.disk

theorem fat32Init_of_located {hint : Int} {m : Fat32} {v : Nat} {b : Fat32Bpb}
    (hloc : fat32Locate m.disk hint = (v, b, true)) (hroom : b.dataStart < b.totalSectors) :
    ∃ s, fat32Init hint m = (true, s) ∧ s.disk = mountedDisk v b m ∧ s.volumeLba = v ∧ s.bpb = b ∧
      s.ready = true ∧ s.fatLba = w32 (v + b.reservedSectorCount) ∧
      s.dataLba = w32 (v + b.dataStart) ∧
      s.clusterCount = dataClusters b ∧ s.walOn = decide (HasLog b) ∧
      (HasLog b → s.walLogLba = logStart v b ∧ s.walMax = 170) ∧ s.walNext = 0 ∧
      s.fatCache = none ∧ s.readCacheValid = false := by
  unfold fat32Init mountedDisk dataClusters
  simp only [hloc, Bool.not_true, Bool.false_eq_true, if_false, if_neg (Nat.not_le.mpr hroom)]
  by_cases hlog : HasLog b
  · obtain ⟨tr, d, hrec⟩ := walRecover_eq (beforeRecover v b m)
    have hmax : (walSectors - 1) / walRecSectors = 170 := rfl
    have hcond : walSectors + 32 < b.totalSectors - b.dataStart := hlog
    unfold beforeRecover logStart at hrec ⊢
    simp only [if_pos hcond, hmax, hrec, if_pos hlog]
    refine ⟨_, rfl, rfl, rfl, rfl, rfl, rfl, rfl, rfl, ?_, fun _ => ⟨rfl, rfl⟩, rfl, rfl, rfl⟩
    exact (decide_eq_true hlog).symm
  · have hcond : ¬ walSectors + 32 < b.totalSectors - b.dataStart := hlog
    simp only [if_neg hcond, if_neg hlog]
    refine ⟨_, rfl, rfl, rfl, rfl, rfl, rfl, rfl, rfl, ?_, fun h => absurd h hlog, rfl, rfl, rfl⟩
    exact (decide_eq_false hlog).symm

theorem located_of_fat32Init {hint : Int} {m s : Fat32} (h : fat32Init hint m = (true, s)) :
    ∃ v b, fat32Locate m.disk hint = (v, b, true) ∧ b.dataStart < b.totalSectors := by
  obtain ⟨⟨v, b, ok⟩, hloc⟩ : ∃ r, fat32Locate m.disk hint = r := ⟨_, rfl⟩
  unfold fat32Init at h
  rw [hloc] at h
  cases ok with
  | false => simp at h
  | true =>
    refine ⟨v, b, hloc, ?_⟩
    by_contra hroom
    simp [Nat.not_lt.mp hroom] at h

end Monios.Analysis
