import Monios.Library.Run
import Monios.Analysis.LogReplay

/-!
# Power loss and recovery of a FAT32 volume

A run is any order of logged writes (`fat32_logged_write_sector`) and plain writes of data sectors
on a mounted volume. The power may go after any number of the single sector writes; the next
`fat32_init` then replays the log.
-/

set_option autoImplicit false

namespace Monios.Analysis

open Monios.Library Monios.Model

inductive SectorWrite
  | logged (lba : Nat) (buffer : Sector)
  | data (lba : Nat) (buffer : Sector)

namespace SectorWrite

def lba : SectorWrite → Nat
  | logged lba _ => lba
  | data lba _ => lba

def buffer : SectorWrite → Sector
  | logged _ buffer => buffer
  | data _ buffer => buffer

def exec (s : Fat32) : SectorWrite → Fat32
  | logged lba buffer => fat32LoggedWriteSector s lba buffer
  | data lba buffer => ataWriteSector s lba buffer

def viaLog (s : Fat32) : SectorWrite → Bool
  | logged lba _ => walLogs s lba
  | data _ _ => false

end SectorWrite

def writeStep (s : Fat32) (w : SectorWrite) : Option Fat32 := some (w.exec s)

def InLog (s : Fat32) (lba : Nat) : Prop := s.walOn = true ∧ LogSector s.walLogLba lba

def crashDisk (s t : Fat32) (n : Nat) : Nat → Sector :=
  applyWrites s.disk ((t.trace.drop s.trace.length).take n)

/-- The logged write into which a power loss after `n` sector writes falls: its target,
and the old and the new image. -/
def inFlight (s : Fat32) : List SectorWrite → Nat → Option (Nat × Sector × Sector)
  | [], _ => none
  | w :: ws, n =>
    let made := (w.exec s).trace.length - s.trace.length
    if n = 0 then none
    else if n < made then
      match w with
      | .logged lba buffer => some (lba, s.disk lba, buffer)
      | .data _ _ => none
    else inFlight (w.exec s) ws (n - made)

/-- The volume comes back after a power loss: whatever the memory holds at the next mount,
the mount succeeds, and every sector outside the log has the contents it had when the
power went, or is the target of the logged write in flight with its old or new image. -/
def Recovers (hint : Int) (s : Fat32) (ws : List SectorWrite) (n : Nat) : Prop :=
  ∀ m : Fat32,
    let crashed := crashDisk s (ws.foldl SectorWrite.exec s) n
    let r := fat32Init hint { m with disk := crashed }
    r.1 = true ∧ ∀ lba, ¬ InLog s lba → r.2.disk lba = crashed lba ∨
      ∃ old new, inFlight s ws n = some (lba, old, new) ∧ (r.2.disk lba = old ∨ r.2.disk lba = new)

def walImage (s : Fat32) (lba : Nat) : Option Sector :=
  if s.walOn then lastWrite (replayWrites s s.walNext) lba else none

/-- What the driver writes: sectors of the volume that are neither part of the log nor
needed to find the volume. -/
structure Writable (hint : Int) (s : Fat32) (w : SectorWrite) : Prop where
  lba_lt : w.lba < 2 ^ 32
  not_log : ¬ InLog s w.lba
  not_boot : w.lba ∉ bootSectors s.disk hint

/-- The log has room for a record of the write; a write that makes no record goes to a
sector on which recovery puts nothing, or just what is written. -/
def KeepsLog (s : Fat32) (w : SectorWrite) : Prop :=
  if w.viaLog s then s.walNext < s.walMax
  else ∀ image, walImage s w.lba = some image → image = w.buffer

section

variable {magic : List UInt8} {a b c d : Nat}

/-- The magic of a record is found. -/
theorem walFields_magic (hm : magic.length = 4) :
    walHasMagic magic (walFields magic a b c d) = true := by
  have hb : ∀ i, i < 4 → (walFields magic a b c d).byte i = magic.getD i 0 := by
    intro i hi
    unfold walFields
    rw [Block.byte_patch_of_disjoint _ (by omega), Block.byte_patch_of_disjoint _ (by omega),
      Block.byte_patch_of_disjoint _ (by omega), Block.byte_patch_of_disjoint _ (by omega)]
    have h := Block.byte_patch_self (Block.zero : Sector) (o := 0) (i := i) (d := magic) (by omega) (by omega)
    rwa [Nat.zero_add] at h
  unfold walHasMagic
  rw [hb 0 (by omega), hb 1 (by omega), hb 2 (by omega), hb 3 (by omega)]
  simp

theorem walFields_u32_8 (h : b < 2 ^ 32) : (walFields magic a b c d).u32 8 = b := by
  unfold walFields
  rw [Block.u32_patch_of_disjoint _ (by simp), Block.u32_patch_of_disjoint _ (by simp)]
  exact Block.u32_patch_self _ h (by omega)

theorem walFields_u32_12 (h : c < 2 ^ 32) : (walFields magic a b c d).u32 12 = c := by
  unfold walFields
  rw [Block.u32_patch_of_disjoint _ (by simp)]
  exact Block.u32_patch_self _ h (by omega)

theorem walFields_u32_16 (h : d < 2 ^ 32) : (walFields magic a b c d).u32 16 = d := by
  unfold walFields
  exact Block.u32_patch_self _ h (by omega)

end

/-- A committed record is replayed with its image. -/
theorem walReplayWrite_committed {t : Fat32} {i seq lba sum : Nat} {image : Sector}
    (hrecord : t.disk (w32 (t.walLogLba + (1 + 3 * i))) = walRecord seq lba sum walStCommitted)
    (hnew : t.disk (w32 (t.walLogLba + (1 + 3 * i + 2))) = image) (hlba : lba < 2 ^ 32) :
    walReplayWrite t i = some (lba, image) := by
  have hmagic : walRecordMagic (walRecord seq lba sum walStCommitted) = true := walFields_magic rfl
  have hstatus : (walRecord seq lba sum walStCommitted).u32 16 = walStCommitted :=
    walFields_u32_16 (by decide)
  have htarget : (walRecord seq lba sum walStCommitted).u32 8 = lba := walFields_u32_8 hlba
  unfold walReplayWrite ataReadSector
  simp only [walRecHdrLba_eq, w32_w32_add, Nat.add_assoc] at hrecord hnew ⊢
  rw [hrecord, hnew, if_pos hmagic, hstatus, htarget, if_neg (by decide), if_pos rfl]

/-- Between two writes: the header counts the slots in use, each of these holds a record
of a sector outside the log, and replaying them now would change nothing. -/
structure LogInv (hint : Int) (s : Fat32) : Prop where
  mounted : Mounted hint s
  boot : ∀ x ∈ bootSectors s.disk hint, ¬ InLog s x
  next_le : s.walOn = true → s.walNext ≤ 170
  header : s.walOn = true → ∃ c, s.disk s.walLogLba = walHeader c s.walNext 170
  slots : s.walOn = true → ∀ i, i < s.walNext → ∀ w, walReplayWrite s i = some w → ¬ LogSector s.walLogLba w.1
  current : ∀ lba image, walImage s lba = some image → image = s.disk lba

structure SameLog (hint : Int) (s : Fat32) (d : Nat → Sector) : Prop where
  boot : ∀ x ∈ bootSectors s.disk hint, d x = s.disk x
  header : s.walOn = true → d s.walLogLba = s.disk s.walLogLba
  slots : s.walOn = true → ∀ i, i < s.walNext → ∀ j, j < 3 →
    d (w32 (s.walLogLba + (1 + 3 * i + j))) = s.disk (w32 (s.walLogLba + (1 + 3 * i + j)))

/-- The log is on if and only if the volume has room for one. -/
theorem Mounted.hasLog_iff {hint : Int} {s : Fat32} (h : Mounted hint s) :
    s.walOn = true ↔ HasLog s.bpb := by
  rw [h.walOn, decide_eq_true_iff]

theorem Mounted.logLba_lt {hint : Int} {s : Fat32} (h : Mounted hint s) (hon : s.walOn = true) :
    s.walLogLba < 2 ^ 32 := by
  rw [h.walLogLba (h.hasLog_iff.mp hon)]
  exact w32_lt _

/-- The next mount, on any disk with the log of `s`, puts the recorded images on their
sectors and changes nothing else outside the log. -/
theorem fat32Init_sameLog {hint : Int} {s : Fat32} (hinv : LogInv hint s) {d : Nat → Sector}
    (hd : SameLog hint s d) (m : Fat32) :
    (fat32Init hint { m with disk := d }).1 = true ∧ ∀ lba, ¬ InLog s lba →
        (fat32Init hint { m with disk := d }).2.disk lba = (walImage s lba).getD (d lba) := by
  have hm := hinv.mounted
  have hloc : fat32Locate d hint = (s.volumeLba, s.bpb, true) :=
    (fat32Locate_congr hd.boot).trans hm.located
  have hloc' : fat32Locate { m with disk := d }.disk hint = (s.volumeLba, s.bpb, true) := hloc
  obtain ⟨r, hr, hdisk, -⟩ := fat32Init_of_located hloc' hm.room
  rw [hr]
  refine ⟨rfl, ?_⟩
  intro lba hlba
  show r.disk lba = _
  rw [hdisk]
  unfold mountedDisk walImage
  by_cases hlog : HasLog s.bpb
  · have hon := hm.hasLog_iff.mpr hlog
    have hstart : logStart s.volumeLba s.bpb = s.walLogLba := (hm.walLogLba hlog).symm
    rw [if_pos hlog, if_pos hon, hstart]
    -- `u` is the state `wal_recover` is called in
    obtain ⟨u, hu⟩ : ∃ u, beforeRecover s.volumeLba s.bpb { m with disk := d } = u := ⟨_, rfl⟩
    have hulog : u.walLogLba = s.walLogLba := by rw [← hu]; exact hstart
    have hudisk : u.disk = d := by rw [← hu]; rfl
    rw [hu]
    have hne : lba ≠ s.walLogLba := by
      rintro rfl
      exact hlba ⟨hon, logSector_self (hm.logLba_lt hon)⟩
    rw [Function.update_of_ne hne]
    have hsame : ∀ i, i < s.walNext → walReplayWrite u i = walReplayWrite s i := by
      intro i hi
      apply walReplayWrite_congr hulog
      intro j hj
      rw [hudisk]
      exact hd.slots hon i hi j hj
    have hcount : replayCount u = s.walNext := by
      obtain ⟨c, hc⟩ := hinv.header hon
      have hle := hinv.next_le hon
      have hhdr : ataReadSector u u.walLogLba = walHeader c s.walNext 170 := by
        unfold ataReadSector
        rw [hulog, hudisk, hd.header hon, hc]
      have hmagic : walHeaderMagic (walHeader c s.walNext 170) = true := walFields_magic rfl
      have hnext : (walHeader c s.walNext 170).u32 12 = s.walNext := walFields_u32_12 (by omega)
      have hmax : (walHeader c s.walNext 170).u32 16 = 170 := walFields_u32_16 (by omega)
      unfold replayCount walReplayLimit
      simp only [hhdr, if_pos hmagic, hnext, hmax]
      rw [if_neg (by omega), Nat.min_eq_left hle]
    rw [replayDisk_eq u (by rw [hcount]; exact hinv.next_le hon), hcount, replayWrites_congr hsame,
      hudisk, applyWrites_eq_lastWrite]
    intro i hi w hw
    rw [hcount] at hi
    rw [hsame i hi] at hw
    rw [hulog]
    exact hinv.slots hon i hi w hw
  · have hoff : ¬ s.walOn = true := fun hon => hlog (hm.hasLog_iff.mp hon)
    rw [if_neg hlog, if_neg hoff]
    rfl

def sectorWrites (s : Fat32) (w : SectorWrite) : List (Nat × Sector) :=
  if w.viaLog s then
    let idx := if s.walMax ≤ s.walNext then 0 else s.walNext
    let h := walRecHdrLba s idx
    let sum := walChecksumSectors (s.disk w.lba) w.buffer
    [(h, walRecord s.walSeq w.lba sum walStInProgress), (w32 (h + 1), s.disk w.lba),
      (w32 (h + 2), w.buffer), (w.lba, w.buffer), (h, walRecord s.walSeq w.lba sum walStCommitted),
      (s.walLogLba, walHeader walDirty (idx + 1) s.walMax)]
  else [(w.lba, w.buffer)]

/-- A write changes the disk and the counters of the log. -/
theorem exec_eq (s : Fat32) (w : SectorWrite) : ∃ next seq, w.exec s = { s with
        disk := applyWrites s.disk (sectorWrites s w)
        trace := s.trace ++ sectorWrites s w
        walNext := next
        walSeq := seq } ∧
      next = if w.viaLog s then (if s.walMax ≤ s.walNext then 0 else s.walNext) + 1 else s.walNext := by
  cases w with
  | data lba buffer => exact ⟨s.walNext, s.walSeq, rfl, rfl⟩
  | logged lba buffer =>
    unfold SectorWrite.exec fat32LoggedWriteSector sectorWrites SectorWrite.viaLog
    by_cases hlogs : walLogs s lba = true
    · simp only [if_pos hlogs]
      refine ⟨_, w32 (s.walSeq + 1), ?_, rfl⟩
      simp [walWriteHeader, ataWriteSector, ataReadSector, applyWrites, SectorWrite.lba,
        SectorWrite.buffer, walRecHdrLba]
    · simp only [if_neg hlogs]
      exact ⟨s.walNext, s.walSeq, rfl, rfl⟩

section

variable {hint : Int} {s : Fat32} {w : SectorWrite}

/-- A plain write is one sector. -/
theorem sectorWrites_plain (hvia : ¬ w.viaLog s = true) :
    sectorWrites s w = [(w.lba, w.buffer)] := by
  unfold sectorWrites
  rw [if_neg hvia]

/-- A logged write is a record, the header, and then the sector. -/
theorem sectorWrites_logged (hvia : w.viaLog s = true) (hroom : s.walNext < s.walMax) :
    ∃ first, sectorWrites s w = first ++
      [(s.walLogLba, walHeader walDirty (s.walNext + 1) s.walMax)] ∧
      first.length = 5 ∧ ∀ v ∈ first, v.1 = w.lba ∨ ∃ j, j < 3 ∧
      v.1 = w32 (s.walLogLba + (1 + 3 * s.walNext + j)) := by
  unfold sectorWrites
  rw [if_pos hvia, if_neg (by omega)]
  refine ⟨[_, _, _, _, _], rfl, rfl, ?_⟩
  simp only [walRecHdrLba_eq, w32_w32_add, List.mem_cons, List.not_mem_nil, or_false]
  rintro v (rfl | rfl | rfl | rfl | rfl)
  · exact .inr ⟨0, by omega, rfl⟩
  · exact .inr ⟨1, by omega, by rw [Nat.add_assoc]⟩
  · exact .inr ⟨2, by omega, by rw [Nat.add_assoc]⟩
  · exact .inl rfl
  · exact .inr ⟨0, by omega, rfl⟩

theorem walOn_of_viaLog (hvia : w.viaLog s = true) : s.walOn = true := by
  cases w with
  | data lba buffer => simp [SectorWrite.viaLog] at hvia
  | logged lba buffer =>
    unfold SectorWrite.viaLog walLogs at hvia
    simp only [Bool.and_eq_true] at hvia
    exact hvia.1.1.1

/-- A write that is cut off has changed its own record at most. -/
theorem sameLog_of_prefix (hinv : LogInv hint s) (hw : Writable hint s w) (hvia : w.viaLog s = true)
    (hroom : s.walNext < s.walMax) {n : Nat} (hn : n < (sectorWrites s w).length) :
    SameLog hint s (applyWrites s.disk ((sectorWrites s w).take n)) ∧ ∀ lba, ¬ InLog s lba →
      lba ≠ w.lba →
        applyWrites s.disk ((sectorWrites s w).take n) lba = s.disk lba := by
  have hon := walOn_of_viaLog hvia
  have hmax : s.walMax = 170 := hinv.mounted.walMax (hinv.mounted.hasLog_iff.mp hon)
  obtain ⟨first, hfirst, hlen, haddr⟩ := sectorWrites_logged hvia hroom
  rw [hfirst, List.length_append, List.length_singleton] at hn
  rw [hfirst, List.take_append_of_le_length (by omega)]
  have hkeep : ∀ x, x ≠ w.lba → (∀ j, j < 3 → x ≠ w32 (s.walLogLba + (1 + 3 * s.walNext + j))) →
      applyWrites s.disk (first.take n) x = s.disk x := by
    intro x hx hslot
    apply applyWrites_of_forall_ne
    intro v hv heq
    rcases haddr v (List.mem_of_mem_take hv) with h | ⟨j, hj, h⟩
    · exact hx (heq.symm.trans h)
    · exact hslot j hj (heq.symm.trans h)
  have hlogNe : ∀ k, k < walSectors → w32 (s.walLogLba + k) ≠ w.lba := by
    intro k hk heq
    exact hw.not_log ⟨hon, k, hk, heq.symm⟩
  have houter : ∀ lba, ¬ InLog s lba → lba ≠ w.lba →
      applyWrites s.disk (first.take n) lba = s.disk lba := by
    intro lba hlba hne
    apply hkeep lba hne
    intro j hj heq
    exact hlba ⟨hon, _, by unfold walSectors; omega, heq⟩
  refine ⟨⟨?_, ?_, ?_⟩, houter⟩
  · intro x hx
    apply houter x (hinv.boot x hx)
    rintro rfl
    exact hw.not_boot hx
  · intro _
    have hself : s.walLogLba = w32 (s.walLogLba + 0) := by
      have := hinv.mounted.logLba_lt hon
      unfold w32
      omega
    rw [hself]
    apply hkeep _ (hlogNe 0 (by decide))
    intro j hj heq
    have := logSector_inj (by decide) (by unfold walSectors; omega) heq
    omega
  · intro _ i hi j hj
    apply hkeep _ (hlogNe _ (by unfold walSectors; omega))
    intro k hk heq
    have := logSector_inj (by unfold walSectors; omega) (by unfold walSectors; omega) heq
    omega

/-- What the disk is after a logged write. -/
theorem applyWrites_logged (hinv : LogInv hint s) (hw : Writable hint s w)
    (hvia : w.viaLog s = true) (hroom : s.walNext < s.walMax) :
    applyWrites s.disk (sectorWrites s w) (w32 (s.walLogLba + (1 + 3 * s.walNext))) =
        walRecord s.walSeq w.lba (walChecksumSectors (s.disk w.lba) w.buffer) walStCommitted ∧
      applyWrites s.disk (sectorWrites s w) (w32 (s.walLogLba + (1 + 3 * s.walNext + 2))) =
      w.buffer ∧
      applyWrites s.disk (sectorWrites s w) s.walLogLba =
      walHeader walDirty (s.walNext + 1) s.walMax ∧
      applyWrites s.disk (sectorWrites s w) w.lba = w.buffer := by
  have hon := walOn_of_viaLog hvia
  have hmax : s.walMax = 170 := hinv.mounted.walMax (hinv.mounted.hasLog_iff.mp hon)
  have hlt := hinv.mounted.logLba_lt hon
  have hself : s.walLogLba = w32 (s.walLogLba + 0) := by
    unfold w32
    omega
  have hne : ∀ k, k < walSectors → w.lba ≠ w32 (s.walLogLba + k) := by
    intro k hk heq
    exact hw.not_log ⟨hon, k, hk, heq⟩
  have hlog : ∀ a b, a < walSectors → b < walSectors → a ≠ b →
      w32 (s.walLogLba + a) ≠ w32 (s.walLogLba + b) :=
    fun a b ha hb hab heq => hab (logSector_inj ha hb heq)
  have h0 : 0 < walSectors := by decide
  have hb : 1 + 3 * s.walNext + 2 < walSectors := by unfold walSectors; omega
  have hL : ∀ k, 0 < k → k < walSectors → s.walLogLba ≠ w32 (s.walLogLba + k) := by
    intro k hk hk' heq
    rw [hself, w32_w32_add] at heq
    exact hlog 0 k h0 hk' (by omega) heq
  have hnL : w.lba ≠ s.walLogLba := by
    intro heq
    exact hne 0 h0 (heq.trans hself)
  simp only [sectorWrites, if_pos hvia, if_neg (Nat.not_le.mpr hroom), walRecHdrLba_eq, w32_w32_add,
    applyWrites_eq_lastWrite]
  refine ⟨?_, ?_, ?_, ?_⟩
  · simp [lastWrite, hL _ (show 0 < 1 + 3 * s.walNext by omega) (by omega)]
  · simp only [Nat.add_assoc]
    simp [lastWrite, hL _ (show 0 < 1 + (3 * s.walNext + 2) by omega) (by omega),
      hlog _ _ (show 1 + 3 * s.walNext < walSectors by omega)
        (show 1 + (3 * s.walNext + 2) < walSectors by omega) (by omega),
      hne _ (show 1 + (3 * s.walNext + 2) < walSectors by omega)]
  · simp [lastWrite]
  · simp [lastWrite, hnL.symm, (hne _ (show 1 + 3 * s.walNext < walSectors by omega)).symm]

/-- A volume stays mounted when its boot sectors do. -/
theorem Mounted.of_disk (h : Mounted hint s) {d : Nat → Sector} {tr : List (Nat × Sector)}
    {next seq : Nat} (hd : ∀ x ∈ bootSectors s.disk hint, d x = s.disk x) :
    Mounted hint { s with disk := d, trace := tr, walNext := next, walSeq := seq } where
  located := (fat32Locate_congr hd).trans h.located
  room := h.room
  ready := h.ready
  fatLba := h.fatLba
  dataLba := h.dataLba
  clusterCount := h.clusterCount
  walOn := h.walOn
  walLogLba := h.walLogLba
  walMax := h.walMax

/-- A plain write keeps the invariant when the log has no image of its sector. -/
theorem logInv_plain (hinv : LogInv hint s) (hw : Writable hint s w) (hvia : ¬ w.viaLog s = true)
    (hkeep : ∀ image, walImage s w.lba = some image → image = w.buffer) :
    LogInv hint (w.exec s) := by
  obtain ⟨next, seq, hexec, hnext⟩ := exec_eq s w
  rw [if_neg hvia] at hnext
  subst hnext
  rw [sectorWrites_plain hvia] at hexec
  have hdisk : applyWrites s.disk [(w.lba, w.buffer)] = Function.update s.disk w.lba w.buffer := rfl
  rw [hdisk] at hexec
  rw [hexec]
  have hboot : ∀ x ∈ bootSectors s.disk hint, Function.update s.disk w.lba w.buffer x =
      s.disk x := by
    intro x hx
    apply Function.update_of_ne
    rintro rfl
    exact hw.not_boot hx
  have hlog : s.walOn = true → ∀ k, k < walSectors → Function.update s.disk w.lba w.buffer (w32 (s.walLogLba + k)) =
        s.disk (w32 (s.walLogLba + k)) := by
    intro hon k hk
    apply Function.update_of_ne
    intro heq
    exact hw.not_log ⟨hon, k, hk, heq.symm⟩
  have hslot : s.walOn = true → ∀ i, i < s.walNext →
      walReplayWrite { s with
        disk := Function.update s.disk w.lba w.buffer
        trace := s.trace ++ [(w.lba, w.buffer)]
        walNext := s.walNext
        walSeq := seq } i = walReplayWrite s i := by
    intro hon i hi
    have := hinv.next_le hon
    exact walReplayWrite_congr (s := s) rfl fun j hj => hlog hon _ (by unfold walSectors; omega)
  refine ⟨hinv.mounted.of_disk hboot, ?_, hinv.next_le, ?_, ?_, ?_⟩
  · intro x hx
    rw [show bootSectors (Function.update s.disk w.lba w.buffer) hint = bootSectors s.disk hint from
      bootSectors_congr hboot] at hx
    exact hinv.boot x hx
  · intro hon
    obtain ⟨c, hc⟩ := hinv.header hon
    refine ⟨c, ?_⟩
    have hself : w32 (s.walLogLba + 0) = s.walLogLba :=
      Nat.mod_eq_of_lt (hinv.mounted.logLba_lt hon)
    have h := hlog hon 0 (by decide)
    rw [hself] at h
    exact h.trans hc
  · intro hon i hi v hv
    rw [hslot hon i hi] at hv
    exact hinv.slots hon i hi v hv
  · intro lba image himage
    have hsame : walImage { s with
        disk := Function.update s.disk w.lba w.buffer
        trace := s.trace ++ [(w.lba, w.buffer)]
        walNext := s.walNext
        walSeq := seq } lba = walImage s lba := by
      unfold walImage
      by_cases hon : s.walOn = true
      · simp only [if_pos hon]
        rw [replayWrites_congr (hslot hon)]
      · simp only [if_neg hon]
    rw [hsame] at himage
    by_cases hlba : lba = w.lba
    · subst hlba
      show image = Function.update s.disk w.lba w.buffer w.lba
      rw [Function.update_self]
      exact hkeep image himage
    · show image = Function.update s.disk w.lba w.buffer lba
      rw [Function.update_of_ne hlba]
      exact hinv.current lba image himage

/-- A logged write keeps the invariant: its image is the newest. -/
theorem logInv_logged (hinv : LogInv hint s) (hw : Writable hint s w) (hvia : w.viaLog s = true)
    (hroom : s.walNext < s.walMax) : LogInv hint (w.exec s) := by
  have hon := walOn_of_viaLog hvia
  have hmax : s.walMax = 170 := hinv.mounted.walMax (hinv.mounted.hasLog_iff.mp hon)
  obtain ⟨hrecord, hnew, hheader, htarget⟩ := applyWrites_logged hinv hw hvia hroom
  obtain ⟨next, seq, hexec, hnext⟩ := exec_eq s w
  rw [if_pos hvia, if_neg (Nat.not_le.mpr hroom)] at hnext
  subst hnext
  -- the last write goes to the log header; up to there `sameLog_of_prefix` applies
  obtain ⟨first, hfirst, hlen, -⟩ := sectorWrites_logged hvia hroom
  have hprefix := sameLog_of_prefix (n := 5) hinv hw hvia hroom (by rw [hfirst]; simp [hlen])
  rw [hfirst, List.take_append_of_le_length (by omega), List.take_of_length_le (by omega)] at hprefix
  obtain ⟨hsame, houter⟩ := hprefix
  have hupd : applyWrites s.disk (sectorWrites s w) = Function.update (applyWrites s.disk first)
      s.walLogLba (walHeader walDirty (s.walNext + 1) s.walMax) := by
    rw [hfirst, applyWrites_concat]
  obtain ⟨d, hd⟩ : ∃ d, applyWrites s.disk (sectorWrites s w) = d := ⟨_, rfl⟩
  rw [hd] at hexec hrecord hnew hheader htarget hupd
  rw [hexec]
  have hlt := hinv.mounted.logLba_lt hon
  have hdne : ∀ x, x ≠ s.walLogLba → d x = applyWrites s.disk first x := by
    intro x hx
    rw [hupd, Function.update_of_ne hx]
  have hdout : ∀ lba, ¬ InLog s lba → lba ≠ w.lba → d lba = s.disk lba := by
    intro lba hlba hne
    rw [hdne lba ?_]
    · exact houter lba hlba hne
    · rintro rfl
      exact hlba ⟨hon, logSector_self hlt⟩
  have hboot : ∀ x ∈ bootSectors s.disk hint, d x = s.disk x := by
    intro x hx
    apply hdout x (hinv.boot x hx)
    rintro rfl
    exact hw.not_boot hx
  obtain ⟨t, ht⟩ : ∃ t : Fat32, { s with
    disk := d
    trace := s.trace ++ sectorWrites s w
    walNext := s.walNext + 1
    walSeq := seq } = t := ⟨_, rfl⟩
  have hmounted : Mounted hint t := by rw [← ht]; exact hinv.mounted.of_disk hboot
  have htdisk : t.disk = d := by rw [← ht]
  have htlog : t.walLogLba = s.walLogLba := by rw [← ht]
  have htnext : t.walNext = s.walNext + 1 := by rw [← ht]
  have hton : t.walOn = s.walOn := by rw [← ht]
  rw [ht]
  have hold : ∀ i, i < s.walNext → walReplayWrite t i = walReplayWrite s i := by
    intro i hi
    apply walReplayWrite_congr htlog
    intro j hj
    rw [htdisk, hdne _ ?_]
    · exact hsame.slots hon i hi j hj
    · intro heq
      have hself : s.walLogLba = w32 (s.walLogLba + 0) := (Nat.mod_eq_of_lt hlt).symm
      have := logSector_inj (by unfold walSectors; omega) (by decide) (heq.trans hself)
      omega
  have hslot : walReplayWrite t s.walNext = some (w.lba, w.buffer) := by
    rw [← htlog, ← htdisk] at hrecord hnew
    exact walReplayWrite_committed hrecord hnew hw.lba_lt
  refine ⟨hmounted, ?_, ?_, ?_, ?_, ?_⟩
  · intro x hx hin
    rw [htdisk, bootSectors_congr hboot] at hx
    unfold InLog at hin
    rw [hton, htlog] at hin
    exact hinv.boot x hx hin
  · intro _
    omega
  · intro _
    refine ⟨walDirty, ?_⟩
    rw [htdisk, htlog, htnext, hheader, hmax]
  · intro _ i hi v hv
    rw [htlog]
    by_cases hi' : i < s.walNext
    · rw [hold i hi'] at hv
      exact hinv.slots hon i hi' v hv
    · have hieq : i = s.walNext := by omega
      subst hieq
      rw [hslot] at hv
      obtain rfl := Option.some.inj hv
      exact fun hlog => hw.not_log ⟨hon, hlog⟩
  · intro lba image himage
    unfold walImage at himage
    rw [hton, if_pos hon, htnext, replayWrites_succ, replayWrites_congr hold, hslot,
      Option.toList_some, lastWrite_concat] at himage
    rw [htdisk]
    split at himage
    · next hlba =>
        obtain rfl := Option.some.inj himage
        subst hlba
        exact htarget.symm
    · next hlba =>
        -- an older record names a sector outside the log, which this write has not touched
        obtain ⟨i, hi, hwi⟩ := List.mem_filterMap.mp (mem_of_lastWrite himage)
        have hout : ¬ InLog s lba := fun hin => hinv.slots hon i (List.mem_range.mp hi) _ hwi hin.2
        rw [hdout lba hout (Ne.symm hlba)]
        apply hinv.current
        unfold walImage
        rw [if_pos hon]
        exact himage

/-- Every write that keeps the log keeps the invariant. -/
theorem logInv_exec (hinv : LogInv hint s) (hw : Writable hint s w) (hkeep : KeepsLog s w) :
    LogInv hint (w.exec s) := by
  unfold KeepsLog at hkeep
  by_cases hvia : w.viaLog s = true
  · rw [if_pos hvia] at hkeep
    exact logInv_logged hinv hw hvia hkeep
  · rw [if_neg hvia] at hkeep
    exact logInv_plain hinv hw hvia hkeep

theorem inLog_exec (s : Fat32) (w : SectorWrite) (lba : Nat) :
    InLog (w.exec s) lba ↔ InLog s lba := by
  obtain ⟨next, seq, hexec, -⟩ := exec_eq s w
  rw [hexec]
  rfl

/-- A crash between two writes: the replay brings all of them back. -/
theorem recovers_between (hinv : LogInv hint s) (m : Fat32) :
    (fat32Init hint { m with disk := s.disk }).1 = true ∧
      ∀ lba, ¬ InLog s lba → (fat32Init hint { m with disk := s.disk }).2.disk lba = s.disk lba := by
  have hsame : SameLog hint s s.disk := ⟨fun _ _ => rfl, fun _ => rfl, fun _ _ _ _ _ => rfl⟩
  obtain ⟨hok, hdisk⟩ := fat32Init_sameLog hinv hsame m
  refine ⟨hok, ?_⟩
  intro lba hlba
  rw [hdisk lba hlba]
  cases himage : walImage s lba with
  | none => rfl
  | some image => exact hinv.current lba image himage

/-- A crash in a logged write: the sector is the old or the new one. -/
theorem recovers_during (hinv : LogInv hint s) (hw : Writable hint s w) (hvia : w.viaLog s = true)
    (hroom : s.walNext < s.walMax) {n : Nat} (hn : n < (sectorWrites s w).length) (m : Fat32) :
    (fat32Init hint { m with disk := applyWrites s.disk ((sectorWrites s w).take n) }).1 = true ∧
      ∀ lba, ¬ InLog s lba →
        (fat32Init hint { m with disk := applyWrites s.disk ((sectorWrites s w).take n) }).2.disk lba =
            applyWrites s.disk ((sectorWrites s w).take n) lba ∨ lba = w.lba ∧
            (fat32Init hint { m with disk := applyWrites s.disk ((sectorWrites s w).take n) }).2.disk lba =
              s.disk lba := by
  obtain ⟨hsame, houter⟩ := sameLog_of_prefix hinv hw hvia hroom hn
  obtain ⟨hok, hdisk⟩ := fat32Init_sameLog hinv hsame m
  refine ⟨hok, ?_⟩
  intro lba hlba
  rw [hdisk lba hlba]
  cases himage : walImage s lba with
  | none => exact .inl rfl
  | some image =>
    have hcur := hinv.current lba image himage
    by_cases hne : lba = w.lba
    · exact .inr ⟨hne, hcur⟩
    · rw [houter lba hlba hne]
      exact .inl hcur

/-- Writes append to the trace. -/
theorem foldl_exec_trace (s : Fat32) (ws : List SectorWrite) :
    ∃ rest, (ws.foldl SectorWrite.exec s).trace = s.trace ++ rest := by
  induction ws generalizing s with
  | nil => exact ⟨[], by simp⟩
  | cons w ws ih =>
    obtain ⟨rest, hrest⟩ := ih (w.exec s)
    obtain ⟨next, seq, hexec, -⟩ := exec_eq s w
    refine ⟨sectorWrites s w ++ rest, ?_⟩
    rw [List.foldl_cons, hrest, hexec, List.append_assoc]

/-- A crash in the first write or in a later one. -/
theorem crashDisk_cons (s : Fat32) (w : SectorWrite) (ws : List SectorWrite) (n : Nat) :
    crashDisk s ((w :: ws).foldl SectorWrite.exec s) n =
      if n < (sectorWrites s w).length then applyWrites s.disk ((sectorWrites s w).take n)
      else crashDisk (w.exec s) (ws.foldl SectorWrite.exec (w.exec s))
        (n - (sectorWrites s w).length) := by
  obtain ⟨rest, hrest⟩ := foldl_exec_trace (w.exec s) ws
  obtain ⟨next, seq, hexec, -⟩ := exec_eq s w
  have htrace : (w.exec s).trace = s.trace ++ sectorWrites s w := by rw [hexec]
  have hdisk : (w.exec s).disk = applyWrites s.disk (sectorWrites s w) := by rw [hexec]
  unfold crashDisk
  rw [List.foldl_cons, hrest, htrace, hdisk, List.append_assoc, List.drop_left, ← List.append_assoc,
    List.drop_left]
  split
  · rw [List.take_append_of_le_length (by omega)]
  · rw [List.take_append, List.take_of_length_le (by omega), applyWrites_append]

theorem inFlight_cons (s : Fat32) (w : SectorWrite) (ws : List SectorWrite) (n : Nat) :
    inFlight s (w :: ws) n =
      if n = 0 then none
      else if n < (sectorWrites s w).length then
        match w with
        | .logged lba buffer => some (lba, s.disk lba, buffer)
        | .data _ _ => none
      else inFlight (w.exec s) ws (n - (sectorWrites s w).length) := by
  obtain ⟨next, seq, hexec, -⟩ := exec_eq s w
  have htrace : (w.exec s).trace = s.trace ++ sectorWrites s w := by rw [hexec]
  have hmade : (w.exec s).trace.length - s.trace.length = (sectorWrites s w).length := by
    rw [htrace, List.length_append, Nat.add_sub_cancel_left]
  simp only [inFlight, hmade]

/-- From a state with the invariant, every crash of a run is recovered from. -/
theorem recovers_of_logInv {ws : List SectorWrite} {t : Fat32}
    (hrun : RunWhile writeStep (fun s w => Writable hint s w ∧ KeepsLog s w) s ws t)
    (hinv : LogInv hint s) (n : Nat) : Recovers hint s ws n := by
  -- by induction on the run, the point of the power loss moving with its start
  induction hrun generalizing n with
  | nil s =>
    intro m
    have hcrash : crashDisk s s n = s.disk := by simp [crashDisk]
    simp only [List.foldl_nil, hcrash]
    obtain ⟨hok, hdisk⟩ := recovers_between hinv m
    exact ⟨hok, fun lba hlba => .inl (hdisk lba hlba)⟩
  | @cons s s' t w ws hc hstep hrest ih =>
    obtain rfl := Option.some.inj hstep
    obtain ⟨hw, hkeep⟩ := hc
    intro m
    simp only [crashDisk_cons, inFlight_cons]
    by_cases hn : n < (sectorWrites s w).length
    · rw [if_pos hn]
      by_cases h0 : n = 0
      · subst h0
        rw [List.take_zero, applyWrites_nil]
        obtain ⟨hok, hdisk⟩ := recovers_between hinv m
        exact ⟨hok, fun lba hlba => .inl (hdisk lba hlba)⟩
      · have hvia : w.viaLog s = true := by
          by_contra hvia
          rw [sectorWrites_plain hvia, List.length_singleton] at hn
          omega
        unfold KeepsLog at hkeep
        rw [if_pos hvia] at hkeep
        obtain ⟨hok, hdisk⟩ := recovers_during hinv hw hvia hkeep hn m
        refine ⟨hok, ?_⟩
        intro lba hlba
        rcases hdisk lba hlba with h | ⟨rfl, h⟩
        · exact .inl h
        · right
          cases w with
          | data lba buffer => simp [SectorWrite.viaLog] at hvia
          | logged lba buffer =>
            rw [if_neg h0, if_pos hn]
            exact ⟨s.disk lba, buffer, rfl, .inl h⟩
    · have h0 : n ≠ 0 := by
        rintro rfl
        apply hn
        unfold sectorWrites
        split <;> simp
      rw [if_neg hn, if_neg h0, if_neg hn]
      obtain ⟨hok, hdisk⟩ := ih (logInv_exec hinv hw hkeep) (n - (sectorWrites s w).length) m
      refine ⟨hok, ?_⟩
      intro lba hlba
      exact hdisk lba (mt (inLog_exec s w lba).mp hlba)

end

/-- A mount establishes the invariant. -/
theorem logInv_of_fat32Init {hint : Int} {m s : Fat32} (hinit : fat32Init hint m = (true, s))
    (hfound : fat32Locate s.disk hint = fat32Locate m.disk hint)
    (hboot : ∀ x ∈ bootSectors s.disk hint, ¬ InLog s x) : LogInv hint s := by
  obtain ⟨v, b, hloc, hroom⟩ := located_of_fat32Init hinit
  obtain ⟨r, hr, hdisk, hv, hb, hready, hfat, hdata, hcount, hon, hlog, hnext, -⟩ :=
    fat32Init_of_located hloc hroom
  obtain rfl : r = s := (Prod.mk.inj (hr.symm.trans hinit)).2
  have hmounted : Mounted hint r := by
    refine ⟨?_, ?_, hready, ?_, ?_, ?_, ?_, ?_, ?_⟩
    · rw [hfound, hloc, hv, hb]
    · rw [hb]
      exact hroom
    · rw [hfat, hv, hb]
    · rw [hdata, hv, hb]
    · rw [hcount, hb]
    · rw [hon, hb]
    · intro h
      rw [hb] at h
      rw [hv, hb]
      exact (hlog h).1
    · intro h
      rw [hb] at h
      exact (hlog h).2
  refine ⟨hmounted, hboot, ?_, ?_, ?_, ?_⟩
  · intro _
    omega
  · intro h
    rw [hon, decide_eq_true_iff] at h
    refine ⟨walClean, ?_⟩
    rw [hdisk, (hlog h).1, hnext]
    unfold mountedDisk
    rw [if_pos h, Function.update_self]
  · intro _ i hi
    omega
  · intro lba image himage
    unfold walImage at himage
    rw [hnext] at himage
    split at himage
    · exact absurd himage (by simp [replayWrites])
    · cases himage

/-- On every volume that mounts, for every order of logged and plain writes and a power loss
after any number of sector writes: when no logged write finds the log full, and no plain
write goes to a sector for which the log holds another image, the next mount leaves every
sector outside the log as it was, the one in flight apart. -/
theorem recovers_of_runWhile (hint : Int) (m s : Fat32) (hinit : fat32Init hint m = (true, s))
    (hfound : fat32Locate s.disk hint = fat32Locate m.disk hint)
    (hboot : ∀ x ∈ bootSectors s.disk hint, ¬ InLog s x) (ws : List SectorWrite) (t : Fat32)
    (hrun : RunWhile writeStep (fun s w => Writable hint s w ∧ KeepsLog s w) s ws t) (n : Nat) :
    Recovers hint s ws n :=
  recovers_of_logInv hrun (logInv_of_fat32Init hinit hfound hboot) n

def smallBoot : Sector :=
  (((((((Block.zero.patch 11 (le16 512)).patch 13 [1]).patch 14 (le16 1)).patch 16 [2]).patch 32
    (le32 600)).patch 36 (le32 1)).patch 44 (le32 2))

def smallVolume : Fat32 :=
  (fat32Init 0 (Fat32.unmounted (Function.update (fun _ => Block.zero) 0 smallBoot))).2

def imageA : Sector := Block.ofBytes [0xAA]

def imageB : Sector := Block.ofBytes [0xBB]

theorem smallVolume_init : fat32Init 0 (Fat32.unmounted (Function.update (fun _ => Block.zero) 0 smallBoot)) =
      (true, smallVolume) :=
  Prod.ext (by decide) rfl

theorem smallVolume_located : fat32Locate smallVolume.disk 0 =
      fat32Locate (Fat32.unmounted (Function.update (fun _ => Block.zero) 0 smallBoot)).disk 0 := by
  decide +kernel

theorem smallVolume_boot : bootSectors smallVolume.disk 0 = [0, 0, 0] := by
  decide +kernel

theorem smallVolume_walLogLba : smallVolume.walLogLba = 88 := by
  decide

theorem not_inLog_of_lt {s : Fat32} {lba : Nat} (hlog : s.walLogLba = 88) (h : lba < 88) :
    ¬ InLog s lba := by
  rintro ⟨-, k, hk, heq⟩
  unfold walSectors at hk
  unfold w32 at heq
  omega

/-- Sectors in front of the log may be written. -/
theorem smallVolume_writable {s : Fat32} (hlog : s.walLogLba = 88)
    (hboot : bootSectors s.disk 0 = [0, 0, 0]) {w : SectorWrite} (h0 : 0 < w.lba) (h : w.lba < 88) :
    Writable 0 s w where
  lba_lt := by omega
  not_log := not_inLog_of_lt hlog h
  not_boot := by
    rw [hboot]
    simp
    omega

theorem smallVolume_bootClear : ∀ x ∈ bootSectors smallVolume.disk 0, ¬ InLog smallVolume x := by
  intro x hx
  apply not_inLog_of_lt smallVolume_walLogLba
  rw [smallVolume_boot] at hx
  simp only [List.mem_cons, List.not_mem_nil, or_false, or_self] at hx
  omega

def smallLogged : Fat32 := (SectorWrite.logged 10 imageA).exec smallVolume

theorem smallLogged_boot : bootSectors smallLogged.disk 0 = [0, 0, 0] := by
  decide

theorem smallLogged_walLogLba : smallLogged.walLogLba = 88 := by
  decide

theorem smallVolume_keepsLog : KeepsLog smallVolume (.logged 10 imageA) := by
  have hvia : (SectorWrite.logged 10 imageA).viaLog smallVolume = true := by decide
  have hroom : smallVolume.walNext < smallVolume.walMax := by decide
  unfold KeepsLog
  rw [if_pos hvia]
  exact hroom

theorem smallLogged_keepsLog : KeepsLog smallLogged (.data 11 imageB) := by
  have hnone : (walImage smallLogged 11).isNone = true := by decide
  intro image himage
  have himage' : walImage smallLogged 11 = some image := himage
  rw [himage'] at hnone
  cases hnone

/-- A logged write to sector 10 and a plain write to sector 11, the power being lost in the
middle of the first. -/
theorem recovers_of_runWhile_small :
    Recovers 0 smallVolume [.logged 10 imageA, .data 11 imageB] 4 :=
  recovers_of_runWhile 0 _ smallVolume smallVolume_init smallVolume_located smallVolume_bootClear
    [.logged 10 imageA, .data 11 imageB] ((SectorWrite.data 11 imageB).exec smallLogged)
    (.cons ⟨smallVolume_writable smallVolume_walLogLba smallVolume_boot (by decide) (by decide),
        smallVolume_keepsLog⟩ rfl
      (.cons ⟨smallVolume_writable smallLogged_walLogLba smallLogged_boot (by decide) (by decide),
          smallLogged_keepsLog⟩ rfl (.nil _)))
    4

/-- One wrong byte after a crash is enough. -/
theorem not_recovers_of_byte {hint : Int} {s m : Fat32} {ws : List SectorWrite} {n lba i : Nat}
    (hlba : ¬ InLog s lba) (hnone : (inFlight s ws n).isNone = true)
    (hne : ((fat32Init hint { m with disk := crashDisk s (ws.foldl SectorWrite.exec s) n }).2.disk
      lba).byte i ≠ (crashDisk s (ws.foldl SectorWrite.exec s) n lba).byte i) : ¬ Recovers hint s ws n := by
  intro hrec
  obtain ⟨-, hdisk⟩ := hrec m
  rcases hdisk lba hlba with h | ⟨old, new, h, -⟩
  · rw [h] at hne
    exact hne rfl
  · rw [h] at hnone
    cases hnone

/-- Sector 10 is written through the log and then, as file data, without it: after a power
loss the next mount puts the logged image back over the data. -/
theorem not_recovers : ¬ ∀ (hint : Int) (m s : Fat32), fat32Init hint m = (true, s) →
        fat32Locate s.disk hint = fat32Locate m.disk hint →
        (∀ x ∈ bootSectors s.disk hint, ¬ InLog s x) →
        ∀ (ws : List SectorWrite) (t : Fat32), RunWhile writeStep (Writable hint) s ws t →
          ∀ n, Recovers hint s ws n := by
  intro hall
  have hrun : RunWhile writeStep (Writable 0) smallVolume [.logged 10 imageA, .data 10 imageB]
      ((SectorWrite.data 10 imageB).exec smallLogged) :=
    .cons (smallVolume_writable smallVolume_walLogLba smallVolume_boot (by decide) (by decide)) rfl
      (.cons (smallVolume_writable smallLogged_walLogLba smallLogged_boot (by decide) (by decide)) rfl (.nil _))
  have hrec := hall 0 _ smallVolume smallVolume_init smallVolume_located smallVolume_bootClear _ _ hrun 7
  refine not_recovers_of_byte (m := smallVolume) (i := 0)
    (not_inLog_of_lt smallVolume_walLogLba (by decide : 10 < 88)) ?_ ?_ hrec
  · decide
  · decide +kernel

end Monios.Analysis
