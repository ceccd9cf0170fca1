import Monios.Analysis.LogRecovery

/-!
# Recovery from a hostile log

`wal_recover` on any contents of the log: the sectors it reads, the sectors it writes and the
records it replays.  The addresses of a volume and of its log are counted modulo `2 ^ 32`.
-/

set_option autoImplicit false

namespace Monios.Analysis.HostileLog

open Monios.Library Monios.Model

def beforeSlot (s : Fat32) (i : Nat) : Fat32 := (List.range i).foldl walReplayRecord s

/-- The sectors `wal_recover` reads for slot `i`: the header of the record, and one image when it
replays the record. -/
def slotReads (s : Fat32) (i : Nat) : List Nat :=
  let h := walRecHdrLba s i
  let rh := ataReadSector s h
  if walRecordMagic rh then
    if rh.u32 16 = walStInProgress then [h, w32 (h + 1)]
    else if rh.u32 16 = walStCommitted then [h, w32 (h + 2)]
    else [h]
  else [h]

def recoverReads (s : Fat32) : List Nat :=
  s.walLogLba :: (List.range (replayCount s)).flatMap fun i => slotReads (beforeSlot s i) i

def replayed (s : Fat32) (n : Nat) : List (Nat × Sector) :=
  (List.range n).filterMap fun i => walReplayWrite (beforeSlot s i) i

def DataSector (v : Nat) (b : Fat32Bpb) (lba : Nat) : Prop :=
  (∃ k, k < b.totalSectors ∧ lba = w32 (v + k)) ∧ ¬ LogSector (logStart v b) lba

def Checked (s : Fat32) (i : Nat) : Prop :=
  (s.disk (walRecHdrLba s i)).u32 12 =
    walChecksumSectors (s.disk (w32 (walRecHdrLba s i + 1))) (s.disk (w32 (walRecHdrLba s i + 2)))

/-- The log does no harm: the loop ends, it reads in the log, it replays only checked records onto
sectors of the volume outside the log, and the one other write is the reset of the log. -/
structure RecoverySafe (v : Nat) (b : Fat32Bpb) (s : Fat32) : Prop where
  rounds : replayCount s < 2 ^ 32
  reads : ∀ lba ∈ recoverReads s, LogSector (logStart v b) lba
  writes : ∃ ws, (walRecover s).trace = s.trace ++ ws ++ [(logStart v b, walHeader walClean 0 s.walMax)] ∧
    ∀ w ∈ ws, DataSector v b w.1
  checked : ∀ i, i < replayCount s → ∀ w, walReplayWrite (beforeSlot s i) i = some w → Checked (beforeSlot s i) i

/-- Slot `i` begins in the log, and a record in it that would be replayed lies in the log, is
checked and names a sector of the volume outside the log. -/
def HonestSlot (v : Nat) (b : Fat32Bpb) (s : Fat32) (i : Nat) : Prop :=
  i ≤ 170 ∧ ∀ w, walReplayWrite s i = some w → i < 170 ∧ DataSector v b w.1 ∧ Checked s i

def HonestLog (v : Nat) (b : Fat32Bpb) (s : Fat32) : Prop :=
  ∀ i, i < replayCount s → HonestSlot v b s i

def SlotSafe (v : Nat) (b : Fat32Bpb) (s : Fat32) (i : Nat) : Prop :=
  (∀ lba ∈ slotReads s i, LogSector (logStart v b) lba) ∧
    ∀ w, walReplayWrite s i = some w → DataSector v b w.1 ∧ Checked s i

section

variable {v : Nat} {b : Fat32Bpb} {s t : Fat32}

theorem logSector_iff {a k : Nat} (hk : k < 2 ^ 32) :
    LogSector a (w32 (a + k)) ↔ k < walSectors := by
  constructor
  · rintro ⟨j, hj, heq⟩
    unfold walSectors at hj ⊢
    unfold w32 at heq
    omega
  · intro h
    exact ⟨k, h, rfl⟩

theorem header_mem_slotReads (s : Fat32) (i : Nat) : walRecHdrLba s i ∈ slotReads s i := by
  unfold slotReads
  dsimp only
  split
  · split
    · simp
    · split <;> simp
  · simp

theorem slotReads_of_write {i : Nat} {w : Nat × Sector} (h : walReplayWrite s i = some w) :
    ∃ k, (k = 1 ∨ k = 2) ∧ slotReads s i = [walRecHdrLba s i, w32 (walRecHdrLba s i + k)] := by
  unfold walReplayWrite at h
  unfold slotReads
  dsimp only at h ⊢
  by_cases hmagic : walRecordMagic (ataReadSector s (walRecHdrLba s i)) = true
  · rw [if_pos hmagic] at h ⊢
    by_cases hone : (ataReadSector s (walRecHdrLba s i)).u32 16 = walStInProgress
    · exact ⟨1, .inl rfl, if_pos hone⟩
    · rw [if_neg hone] at h ⊢
      by_cases htwo : (ataReadSector s (walRecHdrLba s i)).u32 16 = walStCommitted
      · exact ⟨2, .inr rfl, if_pos htwo⟩
      · simp [if_neg htwo] at h
  · simp [if_neg hmagic] at h

theorem slotReads_of_none {i : Nat} (h : walReplayWrite s i = none) :
    slotReads s i = [walRecHdrLba s i] := by
  unfold walReplayWrite at h
  unfold slotReads
  dsimp only at h ⊢
  by_cases hmagic : walRecordMagic (ataReadSector s (walRecHdrLba s i)) = true
  · rw [if_pos hmagic] at h ⊢
    by_cases hone : (ataReadSector s (walRecHdrLba s i)).u32 16 = walStInProgress
    · simp [if_pos hone] at h
    · rw [if_neg hone] at h ⊢
      by_cases htwo : (ataReadSector s (walRecHdrLba s i)).u32 16 = walStCommitted
      · simp [if_pos htwo] at h
      · rw [if_neg htwo]
  · rw [if_neg hmagic]

theorem slotSafe_iff {i : Nat} (hlog : s.walLogLba = logStart v b) (hi : i ≤ 171) :
    SlotSafe v b s i ↔ HonestSlot v b s i := by
  have hsector : ∀ k, k ≤ 2 → (LogSector (logStart v b) (w32 (walRecHdrLba s i + k)) ↔ 1 + 3 * i + k < walSectors) := by
    intro k hk
    rw [walRecHdrLba_eq, hlog, w32_w32_add, Nat.add_assoc]
    exact logSector_iff (by omega)
  have hheader : LogSector (logStart v b) (walRecHdrLba s i) ↔ i ≤ 170 := by
    rw [walRecHdrLba_eq, hlog, logSector_iff (by omega)]
    unfold walSectors
    omega
  unfold SlotSafe HonestSlot
  cases hw : walReplayWrite s i with
  | none => simp [slotReads_of_none hw, hheader]
  | some w =>
    obtain ⟨k, hk, hreads⟩ := slotReads_of_write hw
    have himage := hsector k (by omega)
    unfold walSectors at himage
    constructor
    · rintro ⟨hin, hrec⟩
      have h1 := hheader.mp (hin _ (header_mem_slotReads s i))
      have h2 := himage.mp (hin _ (by rw [hreads]; simp))
      exact ⟨h1, fun u hu => ⟨by omega, hrec u hu⟩⟩
    · rintro ⟨h1, hrec⟩
      obtain ⟨h2, -⟩ := hrec w rfl
      refine ⟨?_, fun u hu => (hrec u hu).2⟩
      simp [hreads, hheader, h1, himage, show 1 + 3 * i + k < 512 by omega]

theorem beforeSlot_succ (s : Fat32) (i : Nat) :
    beforeSlot s (i + 1) = walReplayRecord (beforeSlot s i) i := by
  unfold beforeSlot
  rw [List.range_succ, List.foldl_append]
  rfl

theorem walLogLba_beforeSlot (s : Fat32) (i : Nat) : (beforeSlot s i).walLogLba = s.walLogLba := by
  obtain ⟨d, tr, h⟩ := foldl_walReplayRecord_frame s (List.range i)
  unfold beforeSlot
  rw [h]

theorem trace_beforeSlot (s : Fat32) (n : Nat) :
    (beforeSlot s n).trace = s.trace ++ replayed s n := by
  induction n with
  | zero => simp [beforeSlot, replayed]
  | succ n ih =>
    unfold replayed at ih ⊢
    rw [beforeSlot_succ, List.range_succ, List.filterMap_append, ← List.append_assoc, ← ih]
    unfold walReplayRecord
    cases h : walReplayWrite (beforeSlot s n) n <;> simp [h, ataWriteSector]

theorem trace_walRecover (s : Fat32) :
    (walRecover s).trace = s.trace ++ replayed s (replayCount s) ++
      [(s.walLogLba, walHeader walClean 0 s.walMax)] := by
  rw [← trace_beforeSlot]
  unfold walRecover replayCount
  by_cases hmagic : walHeaderMagic (ataReadSector s s.walLogLba) = true
  · obtain ⟨d, tr, h⟩ := foldl_walReplayRecord_frame s (List.range (walReplayLimit s))
    unfold beforeSlot
    simp only [if_pos hmagic, h, walWriteHeader, ataWriteSector]
  · simp only [if_neg hmagic, walWriteHeader, ataWriteSector]
    rfl

theorem disk_beforeSlot {n : Nat} (h : ∀ i, i < n → SlotSafe v b (beforeSlot s i) i) {lba : Nat}
    (hl : LogSector (logStart v b) lba) :
    (beforeSlot s n).disk lba = s.disk lba := by
  induction n with
  | zero => rfl
  | succ n ih =>
    rw [beforeSlot_succ]
    unfold walReplayRecord
    cases hw : walReplayWrite (beforeSlot s n) n with
    | none => exact ih fun i hi => h i (by omega)
    | some w =>
      have hout := ((h n (by omega)).2 w hw).1.2
      exact (Function.update_of_ne (fun heq : lba = w.1 => hout (heq ▸ hl)) _ _).trans
        (ih fun i hi => h i (by omega))

theorem honestSlot_congr {i : Nat} (hi : i ≤ 170) (hs : s.walLogLba = logStart v b)
    (hlog : t.walLogLba = s.walLogLba)
    (hdisk : ∀ lba, LogSector (logStart v b) lba → t.disk lba = s.disk lba) :
    HonestSlot v b t i ↔ HonestSlot v b s i := by
  have hsame : ∀ j, 1 + 3 * i + j < walSectors →
      t.disk (w32 (s.walLogLba + (1 + 3 * i + j))) = s.disk (w32 (s.walLogLba + (1 + 3 * i + j))) := by
    intro j hj
    rw [hs]
    exact hdisk _ ⟨_, hj, rfl⟩
  unfold HonestSlot
  unfold walSectors at hsame
  rcases Nat.lt_or_eq_of_le hi with hlt | rfl
  · have hwrite : walReplayWrite t i = walReplayWrite s i :=
      walReplayWrite_congr hlog fun j hj => hsame j (by omega)
    have hchecked : Checked t i ↔ Checked s i := by
      unfold Checked
      simp only [walRecHdrLba_eq, hlog, w32_w32_add, Nat.add_assoc]
      have h0 := hsame 0 (by omega)
      have h1 := hsame 1 (by omega)
      have h2 := hsame 2 (by omega)
      simp only [Nat.add_zero, Nat.add_assoc] at h0 h1 h2
      rw [h0, h1, h2]
    rw [hwrite, hchecked]
  · have hnone : walReplayWrite t 170 = none ↔ walReplayWrite s 170 = none := by
      have h0 := hsame 0 (by omega)
      unfold walReplayWrite ataReadSector
      simp only [walRecHdrLba_eq, hlog, Nat.add_zero] at h0 ⊢
      rw [h0]
      split
      · split
        · simp
        · split <;> simp
      · simp
    cases ht : walReplayWrite t 170 <;> cases hs' : walReplayWrite s 170 <;> simp [ht, hs'] at hnone ⊢

theorem slotsSafe_iff (hlog : s.walLogLba = logStart v b) (n : Nat) :
    (∀ i, i < n → SlotSafe v b (beforeSlot s i) i) ↔ ∀ i, i < n → HonestSlot v b s i := by
  induction n with
  | zero => simp
  | succ n ih =>
    rw [Nat.forall_lt_succ_right, Nat.forall_lt_succ_right, ih]
    refine and_congr_right fun hhonest => ?_
    have hn : n ≤ 171 := by
      cases n with
      | zero => omega
      | succ m => exact Nat.succ_le_succ (hhonest m (by omega)).1
    rw [slotSafe_iff ((walLogLba_beforeSlot s n).trans hlog) hn]
    rcases Nat.lt_or_eq_of_le hn with hlt | rfl
    · exact honestSlot_congr (by omega) hlog (walLogLba_beforeSlot s n) fun _ hl =>
        disk_beforeSlot (ih.mpr hhonest) hl
    · exact iff_of_false (fun h => absurd h.1 (by omega)) fun h => absurd h.1 (by omega)

theorem replayCount_lt (s : Fat32) : replayCount s < 2 ^ 32 := by
  unfold replayCount walReplayLimit
  split
  · exact lt_of_le_of_lt (Nat.min_le_left _ _) (Block.u32_lt _ _)
  · decide

theorem safe_iff_slots (hlog : s.walLogLba = logStart v b) (hlba : s.walLogLba < 2 ^ 32) :
    RecoverySafe v b s ↔ ∀ i, i < replayCount s → SlotSafe v b (beforeSlot s i) i := by
  constructor
  · intro h i hi
    obtain ⟨ws, htrace, hws⟩ := h.writes
    rw [trace_walRecover, List.append_assoc, List.append_assoc,
      List.append_cancel_left_eq] at htrace
    obtain ⟨rfl, -⟩ := List.append_inj' htrace (by simp)
    refine ⟨fun lba hl => h.reads lba ?_, fun w hw => ⟨hws w ?_, h.checked i hi w hw⟩⟩
    · exact List.mem_cons_of_mem _ (List.mem_flatMap.mpr ⟨i, List.mem_range.mpr hi, hl⟩)
    · exact List.mem_filterMap.mpr ⟨i, List.mem_range.mpr hi, hw⟩
  · intro h
    refine ⟨replayCount_lt s, fun lba hl => ?_, ⟨replayed s (replayCount s), ?_, fun w hw => ?_⟩,
      fun i hi w hw => ?_⟩
    · rcases List.mem_cons.mp hl with rfl | hl
      · rw [← hlog]
        exact logSector_self hlba
      · obtain ⟨i, hi, hl⟩ := List.mem_flatMap.mp hl
        exact (h i (List.mem_range.mp hi)).1 lba hl
    · rw [trace_walRecover, hlog]
    · obtain ⟨i, hi, hw⟩ := List.mem_filterMap.mp hw
      exact ((h i (List.mem_range.mp hi)).2 w hw).1
    · exact ((h i hi).2 w hw).2

theorem safe_iff_honest (m : Fat32) (v : Nat) (b : Fat32Bpb) :
    RecoverySafe v b (beforeRecover v b m) ↔ HonestLog v b (beforeRecover v b m) := by
  have hlog : (beforeRecover v b m).walLogLba = logStart v b := rfl
  have hlba : (beforeRecover v b m).walLogLba < 2 ^ 32 := by
    rw [hlog]
    exact w32_lt _
  exact (safe_iff_slots hlog hlba).trans (slotsSafe_iff hlog _)

end

/-- Recovery is safe exactly on the logs whose counted slots are honest. -/
theorem recoverySafe_iff (m : Fat32) (v : Nat) (b : Fat32Bpb) :
    RecoverySafe v b (beforeRecover v b m) ↔ HonestLog v b (beforeRecover v b m) :=
  safe_iff_honest m v b

def smallBpb : Fat32Bpb :=
  ⟨512, 1, 32, 2, 0, 0, 0, 0, 4096, 32, 2, 0⟩

def hostileDisk (lba : Nat) : Sector :=
  if lba = 5632 then walHeader walDirty 1 170
  else if lba = 5633 then walRecord 0 0 0 walStCommitted
  else Block.zero

theorem hostile_slot : replayCount (beforeRecover 2048 smallBpb (Fat32.unmounted hostileDisk)) = 1 ∧
    walReplayWrite (beforeRecover 2048 smallBpb (Fat32.unmounted hostileDisk)) 0 =
      some (0, Block.zero) := by
  have hlog : (beforeRecover 2048 smallBpb (Fat32.unmounted hostileDisk)).walLogLba = 5632 := by
    decide
  have hheader : hostileDisk 5632 = walHeader walDirty 1 170 := if_pos rfl
  have hrecord : hostileDisk 5633 = walRecord 0 0 0 walStCommitted := by
    unfold hostileDisk
    rw [if_neg (by decide), if_pos rfl]
  have himage : hostileDisk 5635 = Block.zero := by
    unfold hostileDisk
    rw [if_neg (by decide), if_neg (by decide)]
  constructor
  · have hmagic : walHeaderMagic (walHeader walDirty 1 170) = true := walFields_magic rfl
    have hnext : (walHeader walDirty 1 170).u32 12 = 1 := walFields_u32_12 (by decide)
    have hmax : (walHeader walDirty 1 170).u32 16 = 170 := walFields_u32_16 (by decide)
    have hdisk : ataReadSector (beforeRecover 2048 smallBpb (Fat32.unmounted hostileDisk)) 5632 =
        walHeader walDirty 1 170 :=
      hheader
    unfold replayCount walReplayLimit
    rw [hlog, hdisk, if_pos hmagic]
    dsimp only
    rw [hnext, hmax]
    rfl
  · refine @walReplayWrite_committed _ _ 0 _ 0 _ ?_ ?_ (by decide)
    · rw [hlog]
      exact hrecord
    · rw [hlog]
      exact himage

/-- The record is replayed onto the partition table. -/
theorem not_recoverySafe : HasLog smallBpb ∧
    ¬ RecoverySafe 2048 smallBpb (beforeRecover 2048 smallBpb (Fat32.unmounted hostileDisk)) := by
  refine ⟨by decide, fun h => ?_⟩
  obtain ⟨hcount, hwrite⟩ := hostile_slot
  have hslot := (safe_iff_honest _ _ _).mp h 0 (by rw [hcount]; decide)
  obtain ⟨⟨k, hk, heq⟩, -⟩ := (hslot.2 _ hwrite).2.1
  have hk : k < 4096 := hk
  unfold w32 at heq
  omega

end Monios.Analysis.HostileLog
