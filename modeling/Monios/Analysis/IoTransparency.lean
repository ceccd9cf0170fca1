import Monios.Library.Run
import Monios.Model.BlockIo

/-!
# What the I/O scheduler reports

`blockdev_read_sectors` and `blockdev_write_sectors` with the hook of the scheduler installed,
compared with the raw transfers. The queue is empty between two calls, so that a request is never
merged or reordered and reaches the driver as it is; but the hook reports success whatever the
driver says.
-/

set_option autoImplicit false

namespace Monios.Analysis

open Monios.Library Monios.Model

variable {σ : Type}

variable {count : UInt32} {i : Fin 64} {req : IoRequest} {buffer : UInt64}

def singleCalls (dev : Int) (write : Bool) (sectorSize : UInt32) (lba ptr : UInt64) :
    Nat → UInt32 → List DriverCall
  | 0, _ => []
  | left + 1, i =>
    ⟨dev, write, lba + i.toUInt64, 1, ptr + i.toUInt64 * sectorSize.toUInt64⟩ ::
      singleCalls dev write sectorSize lba ptr left (i + 1)

def BlockDev.hasMany (d : BlockDev σ) (write : Bool) : Bool :=
  (if write then d.writeSectors else d.readSectors).isSome

def chunkCalls (dev : Int) (d : BlockDev σ) (write : Bool) (lba : UInt64) (count : UInt32)
    (ptr : UInt64) :
    List DriverCall :=
  if BlockDev.hasMany d write then [⟨dev, write, lba, count, ptr⟩]
  else singleCalls dev write d.sectorSize lba ptr count.toNat 0

def callsFrom (dev : Int) (d : BlockDev σ) (lba : UInt64) (count maxChunk : UInt32)
    (buffer : UInt64) (write : Bool) :
    Nat → UInt32 → List DriverCall
  | 0, _ => []
  | rounds + 1, done =>
    if count ≤ done then []
    else
      let chunk := if count - done > maxChunk then maxChunk else count - done
      chunkCalls dev d write (lba + done.toUInt64) chunk (buffer + done.toUInt64 * d.sectorSize.toUInt64) ++
        callsFrom dev d lba count maxChunk buffer write rounds (done + chunk)

def transferCalls (dev : Int) (d : BlockDev σ) (lba : UInt64) (count : UInt32) (buffer : UInt64)
    (write : Bool) :
    List DriverCall :=
  callsFrom dev d lba count (if d.maxTransferSectors ≠ 0 then d.maxTransferSectors else count) buffer write count.toNat 0

def BlockDev.answer (d : BlockDev σ) (c : DriverCall) (m : σ) : Bool × σ :=
  match (if c.write then d.writeSectors else d.readSectors), (if c.write then d.writeSector else d.readSector) with
  | some routine, _ => routine c.lba c.count c.ptr m
  | none, some routine => routine c.lba c.ptr m
  | none, none => (false, m)

def BlockDev.answerAll (d : BlockDev σ) : List DriverCall → σ → Bool × σ
  | [], m => (true, m)
  | c :: cs, m =>
    if (BlockDev.answer d c m).1 then BlockDev.answerAll d cs (BlockDev.answer d c m).2
    else (false, (BlockDev.answer d c m).2)

/-- The calls of one list after those of another. -/
theorem answerAll_append (d : BlockDev σ) (cs es : List DriverCall) (m : σ) :
    BlockDev.answerAll d (cs ++ es) m =
      if (BlockDev.answerAll d cs m).1 then BlockDev.answerAll d es (BlockDev.answerAll d cs m).2
      else BlockDev.answerAll d cs m := by
  induction cs generalizing m with
  | nil => rfl
  | cons c cs ih =>
    simp only [List.cons_append, BlockDev.answerAll]
    split
    · exact ih _
    · rfl

/-- A computation makes these calls as long as the driver answers with success, and touches nothing
but the machine. -/
structure Drives (d : BlockDev σ) (m : Io σ Bool) (cs : List DriverCall) : Prop where
  result : ∀ s, m.result s = (BlockDev.answerAll d cs s.machine).1
  state : ∀ s, m.state s = { s with machine := (BlockDev.answerAll d cs s.machine).2 }
  log : ∀ s, m.result s = true → m.log s = cs

namespace Drives

variable {d : BlockDev σ}

/-- Nothing drives no calls. -/
theorem nil : Drives d (pure true) [] := ⟨fun _ => rfl, fun _ => rfl, fun _ _ => rfl⟩

/-- One part after the other. -/
theorem andThen {m n : Io σ Bool} {cs es : List DriverCall} (hm : Drives d m cs)
    (hn : Drives d n es) : Drives d (do
      let ok ← m
      if ok then n else pure false) (cs ++ es) := by
  have hcases (s : BlockIo σ) : m.result s = true ∨ m.result s = false :=
    (Bool.eq_false_or_eq_true _)
  refine ⟨fun s => ?_, fun s => ?_, fun s => ?_⟩
  · rw [Traced.result_bind, answerAll_append, ← hm.result s]
    rcases hcases s with h | h
    · rw [h, if_pos rfl, if_pos rfl, hn.result, hm.state s]
    · rw [h, if_neg Bool.false_ne_true, if_neg Bool.false_ne_true, Traced.result_pure,
        ← hm.result s, h]
  · rw [Traced.state_bind, answerAll_append, ← hm.result s]
    rcases hcases s with h | h
    · rw [h, if_pos rfl, if_pos rfl, hn.state, hm.state s]
    · rw [h, if_neg Bool.false_ne_true, if_neg Bool.false_ne_true, Traced.state_pure, hm.state s]
  · rw [Traced.result_bind, Traced.log_bind]
    rcases hcases s with h | h
    · rw [h, if_pos rfl]
      intro hn'
      rw [hm.log s h, hn.log _ hn']
    · rw [h, if_neg Bool.false_ne_true, Traced.result_pure]
      exact fun h' => absurd h' Bool.false_ne_true

end Drives

/-- A call of the driver. -/
theorem drives_callDriver (d : BlockDev σ) (c : DriverCall) {routine : σ → Bool × σ}
    (h : ∀ m, routine m = BlockDev.answer d c m) : Drives d (callDriver c routine) [c] := by
  have hall (m : σ) : BlockDev.answerAll d [c] m = routine m := by
    rw [h]
    unfold BlockDev.answerAll
    split
    · next hok => exact Prod.ext hok.symm rfl
    · next hok => exact Prod.ext (Bool.eq_false_iff.mpr hok).symm rfl
  refine ⟨fun s => ?_, fun s => ?_, fun _ _ => rfl⟩
  · rw [hall]
    rfl
  · rw [hall]
    rfl

section

variable (dev : Int) (d : BlockDev σ) (write : Bool)

/-- The loop over single sectors. -/
theorem drives_dispatchSingles {routine : UInt64 → UInt64 → σ → Bool × σ} (lba ptr : UInt64)
    (hmany : BlockDev.hasMany d write = false)
    (hone : (if write then d.writeSector else d.readSector) = some routine) (left : Nat)
    (i : UInt32) : Drives d (dispatchSingles dev write routine d.sectorSize lba ptr left i)
      (singleCalls dev write d.sectorSize lba ptr left i) := by
  have hnone : (if write then d.writeSectors else d.readSectors) = none := Option.not_isSome_iff_eq_none.mp (by
    unfold BlockDev.hasMany at hmany
    rw [hmany]
    exact Bool.false_ne_true)
  induction left generalizing i with
  | zero => exact Drives.nil
  | succ left ih =>
    refine (drives_callDriver d _ ?_).andThen (ih (i + 1))
    intro m
    unfold BlockDev.answer
    rw [hnone, hone]

/-- One chunk of a transfer. -/
theorem drives_dispatchChunk (hcount : 0 < count.toNat) (lba ptr : UInt64) :
    Drives d (dispatchChunk dev d write lba count ptr) (chunkCalls dev d write lba count ptr) := by
  unfold dispatchChunk chunkCalls
  split
  · next routine hmany =>
    have hhas : BlockDev.hasMany d write = true := by
      unfold BlockDev.hasMany
      rw [hmany, Option.isSome_some]
    rw [if_pos hhas]
    apply drives_callDriver
    intro m
    unfold BlockDev.answer
    rw [hmany]
  · next routine hmany hone =>
    have hhas : BlockDev.hasMany d write = false := by
      unfold BlockDev.hasMany
      rw [hmany, Option.isSome_none]
    rw [hhas, if_neg Bool.false_ne_true]
    exact drives_dispatchSingles dev d write lba ptr hhas hone _ _
  · next hmany hone =>
    -- without a routine, the first call fails
    have hhas : BlockDev.hasMany d write = false := by
      unfold BlockDev.hasMany
      rw [hmany, Option.isSome_none]
    rw [hhas, if_neg Bool.false_ne_true]
    obtain ⟨left, hleft⟩ := Nat.exists_eq_succ_of_ne_zero hcount.ne'
    have hall (m : σ) : BlockDev.answerAll d (singleCalls dev write d.sectorSize lba ptr count.toNat 0) m = (false, m) := by
      rw [hleft]
      unfold singleCalls BlockDev.answerAll BlockDev.answer
      dsimp only
      rw [hmany, hone]
      rfl
    refine ⟨fun s => ?_, fun s => ?_, fun s h => ?_⟩
    · rw [hall]
      rfl
    · rw [hall]
      rfl
    · exact absurd h Bool.false_ne_true

/-- The loop over the chunks. -/
theorem drives_dispatchFrom (lba : UInt64) {count maxChunk : UInt32} (hmax : 0 < maxChunk.toNat)
    (buffer : UInt64) (rounds : Nat) (done : UInt32) :
    Drives d (dispatchFrom dev d lba count maxChunk buffer write rounds done)
      (callsFrom dev d lba count maxChunk buffer write rounds done) := by
  induction rounds generalizing done with
  | zero => exact Drives.nil
  | succ rounds ih =>
    unfold dispatchFrom callsFrom
    split
    · exact Drives.nil
    · next hmore =>
      refine (drives_dispatchChunk dev d write ?_ _ _).andThen (ih _)
      rw [UInt32.le_iff_toNat_le] at hmore
      split
      · exact hmax
      · rw [UInt32.toNat_sub_of_le _ _ (UInt32.le_iff_toNat_le.mpr (Nat.le_of_not_le hmore))]
        omega

/-- A chunk is not empty. -/
theorem maxChunk_pos (hcount : count ≠ 0) :
    0 < (if d.maxTransferSectors ≠ 0 then d.maxTransferSectors else count).toNat := by
  have hpos {x : UInt32} (hx : x ≠ 0) : 0 < x.toNat := by
    apply Nat.pos_of_ne_zero
    intro hzero
    exact hx (UInt32.toNat_inj.mp hzero)
  split
  · next hmax => exact hpos hmax
  · exact hpos hcount

/-- The whole transfer. -/
theorem drives_blockdevDispatchSectors (lba : UInt64) (hcount : count ≠ 0) (buffer : UInt64) :
    Drives d (blockdevDispatchSectors dev d lba count buffer write)
      (transferCalls dev d lba count buffer write) := by
  apply drives_dispatchFrom
  exact maxChunk_pos d hcount

end

abbrev SectorMove := Int × Bool × UInt64 × UInt64

def sectorAt (dev : Int) (write : Bool) (lba ptr : UInt64) (sectorSize : UInt32) (k : Nat) :
    SectorMove :=
  (dev, write, lba + UInt64.ofNat k, ptr + UInt64.ofNat k * sectorSize.toUInt64)

def DriverCall.sectors (sectorSize : UInt32) (c : DriverCall) : List SectorMove :=
  (List.range' 0 c.count.toNat).map (sectorAt c.dev c.write c.lba c.ptr sectorSize)

/-- A sector further on. -/
theorem sectorAt_add (dev : Int) (write : Bool) (lba ptr : UInt64) (sectorSize : UInt32)
    (a k : Nat) :
    sectorAt dev write (lba + UInt64.ofNat a)
      (ptr + UInt64.ofNat a * sectorSize.toUInt64) sectorSize k =
      sectorAt dev write lba ptr sectorSize (a + k) := by
  unfold sectorAt
  rw [UInt64.ofNat_add, UInt64.add_assoc, UInt64.add_mul, UInt64.add_assoc]

/-- The sectors further on. -/
theorem map_sectorAt_shift (dev : Int) (write : Bool) (lba ptr : UInt64) (sectorSize : UInt32)
    (a n : Nat) :
    (List.range' 0 n).map
        (sectorAt dev write (lba + UInt64.ofNat a) (ptr +
          UInt64.ofNat a * sectorSize.toUInt64) sectorSize) =
      (List.range' a n).map (sectorAt dev write lba ptr sectorSize) := by
  have hshift : List.range' a n = (List.range' 0 n).map (a + ·) := by
    rw [List.map_add_range', Nat.add_zero]
  rw [hshift, List.map_map]
  apply List.map_congr_left
  intro k _
  exact sectorAt_add dev write lba ptr sectorSize a k

theorem toUInt64_eq_ofNat (x : UInt32) : x.toUInt64 = UInt64.ofNat x.toNat := by
  rw [← UInt64.toNat_inj, UInt32.toNat_toUInt64, UInt64.toNat_ofNat']
  have := x.toNat_lt
  omega

section

variable (dev : Int) (d : BlockDev σ) (write : Bool)

/-- The single calls cover their sectors, in order. -/
theorem sectors_singleCalls (lba ptr : UInt64) (left : Nat) (i : UInt32)
    (h : i.toNat + left < 2 ^ 32) :
    (singleCalls dev write d.sectorSize lba ptr left i).flatMap (DriverCall.sectors d.sectorSize) =
      (List.range' i.toNat left).map (sectorAt dev write lba ptr d.sectorSize) := by
  induction left generalizing i with
  | zero => rfl
  | succ left ih =>
    have hnext : (i + 1).toNat = i.toNat + 1 := by
      rw [UInt32.toNat_add, UInt32.toNat_one]
      omega
    unfold singleCalls
    rw [List.flatMap_cons, ih (i + 1) (by omega), hnext, List.range'_succ, List.map_cons]
    have hone : DriverCall.sectors d.sectorSize
        ⟨dev, write, lba + i.toUInt64, 1, ptr + i.toUInt64 * d.sectorSize.toUInt64⟩ =
          [sectorAt dev write lba ptr d.sectorSize i.toNat] := by
      have := map_sectorAt_shift dev write lba ptr d.sectorSize i.toNat 1
      rw [← toUInt64_eq_ofNat] at this
      exact this
    rw [hone, List.singleton_append]

/-- A chunk covers its sectors, in order. -/
theorem sectors_chunkCalls (lba ptr : UInt64) (count : UInt32) :
    (chunkCalls dev d write lba count ptr).flatMap (DriverCall.sectors d.sectorSize) =
      (List.range' 0 count.toNat).map (sectorAt dev write lba ptr d.sectorSize) := by
  unfold chunkCalls
  split
  · rw [List.flatMap_singleton]
    rfl
  · apply sectors_singleCalls
    have := count.toNat_lt
    have hzero : (0 : UInt32).toNat = 0 := rfl
    omega

/-- The chunks cover their sectors, in order. -/
theorem sectors_callsFrom (lba : UInt64) {count maxChunk : UInt32} (hmax : 0 < maxChunk.toNat)
    (buffer : UInt64) (rounds : Nat) (done : UInt32) (hrounds : count.toNat - done.toNat ≤ rounds) :
    (callsFrom dev d lba count maxChunk buffer write rounds done).flatMap
      (DriverCall.sectors d.sectorSize) =
      (List.range' done.toNat (count.toNat - done.toNat)).map
        (sectorAt dev write lba buffer d.sectorSize) := by
  induction rounds generalizing done with
  | zero =>
    rw [Nat.le_zero.mp hrounds]
    rfl
  | succ rounds ih =>
    unfold callsFrom
    split
    · next hdone =>
      rw [Nat.sub_eq_zero_of_le (UInt32.le_iff_toNat_le.mp hdone)]
      rfl
    · next hmore =>
      rw [UInt32.le_iff_toNat_le] at hmore
      have hsub := UInt32.toNat_sub_of_le count done (UInt32.le_iff_toNat_le.mpr (Nat.le_of_not_le hmore))
      generalize hchunk : (if count - done > maxChunk then maxChunk else count - done) = chunk
      have hpos : 0 < chunk.toNat ∧ chunk.toNat ≤ count.toNat - done.toNat := by
        rw [← hchunk]
        split
        · next hgt =>
          rw [gt_iff_lt, UInt32.lt_iff_toNat_lt, hsub] at hgt
          omega
        · rw [hsub]
          omega
      have hnext : (done + chunk).toNat = done.toNat + chunk.toNat := by
        have := count.toNat_lt
        rw [UInt32.toNat_add]
        omega
      dsimp only
      rw [List.flatMap_append, sectors_chunkCalls, ih (done + chunk) (by omega), hnext,
        toUInt64_eq_ofNat,
        map_sectorAt_shift, ← List.map_append]
      have hsplit : count.toNat - done.toNat = chunk.toNat + (count.toNat - (done.toNat + chunk.toNat)) := by omega
      rw [hsplit, ← List.range'_append_1]

/-- The transfer covers its sectors, in order. -/
theorem sectors_transferCalls (lba : UInt64) (hcount : count ≠ 0) (buffer : UInt64) :
    (transferCalls dev d lba count buffer write).flatMap (DriverCall.sectors d.sectorSize) =
      (List.range' 0 count.toNat).map (sectorAt dev write lba buffer d.sectorSize) := by
  apply sectors_callsFrom
  · exact maxChunk_pos d hcount
  · exact Nat.sub_le _ _

end

section

variable (devs : List (BlockDev σ)) (write : Bool) (dev : Int) (lba : UInt64)

def Succeeds (devs : List (BlockDev σ)) (m : σ) (write : Bool) (dev : Int) (lba : UInt64)
    (count : UInt32) (buffer : UInt64) : Prop :=
  ∃ d, blockdevGet devs dev = some d ∧ (BlockDev.answerAll d (transferCalls dev d lba count buffer write) m).1 = true

/-- A raw transfer reports success exactly when every call of the driver succeeds. -/
theorem result_blockdevRawSectors_iff (hcount : count ≠ 0) (hbuffer : buffer ≠ 0)
    (s : BlockIo σ) : (blockdevRawSectors devs write dev lba count buffer).result s = true ↔
      Succeeds devs s.machine write dev lba count buffer := by
  unfold blockdevRawSectors Succeeds
  rw [if_neg (not_or.mpr ⟨hbuffer, hcount⟩)]
  cases hget : blockdevGet devs dev with
  | none => simp
  | some d =>
    dsimp only
    rw [(drives_blockdevDispatchSectors dev d write lba hcount buffer).result s]
    simp

/-- A raw transfer changes the machine only. -/
theorem state_blockdevRawSectors (count : UInt32) (buffer : UInt64) (s : BlockIo σ) :
    ∃ m, (blockdevRawSectors devs write dev lba count buffer).state s =
      { s with machine := m } := by
  unfold blockdevRawSectors
  split
  · exact ⟨s.machine, rfl⟩
  · next harg =>
    split
    · exact ⟨s.machine, rfl⟩
    · next d _ =>
      exact ⟨_, (drives_blockdevDispatchSectors dev d write lba (not_or.mp harg).2 buffer).state s⟩

/-- A raw transfer that succeeds makes its calls and no others. -/
theorem log_blockdevRawSectors {s : BlockIo σ} {d : BlockDev σ} (hcount : count ≠ 0)
    (hbuffer : buffer ≠ 0) (hget : blockdevGet devs dev = some d)
    (hok : (BlockDev.answerAll d (transferCalls dev d lba count buffer write) s.machine).1 = true) :
    (blockdevRawSectors devs write dev lba count buffer).log s =
      transferCalls dev d lba count buffer write := by
  have hdrives := drives_blockdevDispatchSectors dev d write lba hcount buffer
  unfold blockdevRawSectors
  rw [if_neg (not_or.mpr ⟨hbuffer, hcount⟩), hget]
  apply hdrives.log
  rw [hdrives.result, hok]

end

def Idle (s : BlockIo σ) : Prop := s.hooked = true ∧ ∀ i, (s.queue i).used = false

def OnlyUsed (s : BlockIo σ) (i : Fin 64) : Prop := ∀ j, (s.queue j).used = decide (j = i)

variable {s : BlockIo σ}

/-- An unused request is not picked. -/
theorem pickRound_unused (h : (s.queue i).used = false) (best : Option (Fin 64)) :
    ioschedPickRound s best i = best := by
  unfold ioschedPickRound
  rw [h]
  rfl

/-- Nothing is picked from an empty queue. -/
theorem ioschedPickNext_unused (h : ∀ i, (s.queue i).used = false) : ioschedPickNext s = none := by
  have hfold (l : List (Fin 64)) : l.foldl (ioschedPickRound s) none = none := by
    induction l with
    | nil => rfl
    | cons i l ih => rw [List.foldl_cons, pickRound_unused (h i), ih]
  exact hfold _

/-- The only request is picked. -/
theorem ioschedPickNext_onlyUsed (h : OnlyUsed s i) : ioschedPickNext s = some i := by
  have hself {best : Option (Fin 64)} (hbest : best = none ∨ best = some i) : ioschedPickRound s best i = some i := by
    unfold ioschedPickRound
    rw [h i, decide_eq_true rfl]
    rcases hbest with rfl | rfl
    · rfl
    · simp
  -- whatever the algorithm is, no entry is preferred to itself
  have hfold (l : List (Fin 64)) (best : Option (Fin 64)) (hbest : best = none ∨ best = some i) :
      l.foldl (ioschedPickRound s) best = if i ∈ l then some i else best := by
    induction l generalizing best with
    | nil => simp
    | cons j l ih =>
      rw [List.foldl_cons]
      by_cases hj : j = i
      · subst hj
        rw [hself hbest, ih _ (Or.inr rfl), ite_self, if_pos List.mem_cons_self]
      · rw [pickRound_unused (by rw [h j, decide_eq_false hj]), ih _ hbest]
        simp [Ne.symm hj]
  unfold ioschedPickNext
  rw [hfold _ _ (Or.inl rfl), if_pos (List.mem_finRange i)]

/-- The only request merges with nothing. -/
theorem ioschedTryMerge_onlyUsed (h : OnlyUsed s i)
    (hreq : s.queue i = req) (hcount : req.count ≠ 0) : ioschedTryMerge s req = none := by
  have hcount' : req.count.toUInt64 ≠ 0 := by
    intro hzero
    apply hcount
    rw [← UInt32.toNat_inj]
    rw [← UInt64.toNat_inj, UInt32.toNat_toUInt64] at hzero
    exact hzero
  have hmerge (j : Fin 64) : ioschedMergeWith (s.queue j) req = none := by
    unfold ioschedMergeWith
    by_cases hj : j = i
    · -- a request does not follow itself
      have hself : req.lba + req.count.toUInt64 ≠ req.lba := by
        intro heq
        exact hcount' (UInt64.add_eq_left.mp heq)
      rw [hj, hreq]
      split
      · rfl
      · rw [if_neg (fun hc => hself hc.1), if_neg (fun hc => hself hc.1)]
    · rw [h j, decide_eq_false hj]
      simp
  unfold ioschedTryMerge
  rw [List.findSome?_eq_none_iff]
  intro j _
  rw [hmerge j, Option.map_none]

/-- An idle queue has a slot. -/
theorem ioschedAllocSlot_idle (h : Idle s) : ∃ i, ioschedAllocSlot s = some i := by
  apply Option.isSome_iff_exists.mp
  unfold ioschedAllocSlot
  rw [List.find?_isSome]
  exact ⟨0, List.mem_finRange 0, by rw [h.2 0]; rfl⟩

/-- The queue after a request is set. -/
theorem queue_setRequest (s : BlockIo σ) (i : Fin 64) (req : IoRequest) :
    (s.setRequest i req).queue = Function.update s.queue i req := rfl

/-- A request in an idle queue is the only one. -/
theorem onlyUsed_setRequest (h : Idle s) (i : Fin 64) (hreq : req.used = true) :
    OnlyUsed (s.setRequest i req) i := by
  intro j
  rw [queue_setRequest]
  by_cases hj : j = i
  · rw [hj, Function.update_self, hreq, decide_eq_true rfl]
  · rw [Function.update_of_ne hj, h.2 j, decide_eq_false hj]

/-- The queue is idle when its only request is done. -/
theorem idle_setRequest (hooked : s.hooked = true) (h : OnlyUsed s i)
    (hreq : req.used = false) : Idle (s.setRequest i req) := by
  refine ⟨hooked, ?_⟩
  intro j
  rw [queue_setRequest]
  by_cases hj : j = i
  · rw [hj, Function.update_self, hreq]
  · rw [Function.update_of_ne hj, h j, decide_eq_false hj]

section

variable (devs : List (BlockDev σ))

/-- An empty queue runs nothing. -/
theorem ioschedRunFrom_unused (h : ∀ i, (s.queue i).used = false) (rounds : Nat)
    (dispatched : UInt32) :
    (ioschedRunFrom devs rounds dispatched).state s = s ∧
      (ioschedRunFrom devs rounds dispatched).log s = [] := by
  cases rounds with
  | zero => exact ⟨rfl, rfl⟩
  | succ rounds =>
    unfold ioschedRunFrom
    rw [Traced.state_bind, Traced.log_bind, Traced.result_reads, Traced.state_reads, id,
      ioschedPickNext_unused h]
    exact ⟨rfl, rfl⟩

/-- The queue runs its only request. -/
theorem ioschedRunFrom_onlyUsed (hooked : s.hooked = true) (h : OnlyUsed s i)
    (hreq : s.queue i = req) (rounds : Nat) (dispatched : UInt32) :
    Idle ((ioschedRunFrom devs (rounds + 1) dispatched).state s) ∧
      (ioschedRunFrom devs (rounds + 1) dispatched).log s =
        (blockdevRawSectors devs req.write req.dev req.lba req.count req.buffer).log s := by
  obtain ⟨m, hstate⟩ := state_blockdevRawSectors devs req.write req.dev req.lba req.count req.buffer s
  have hidle : Idle (BlockIo.setRequest { s with machine := m, lastLba := req.lba } i { req with used := false }) :=
    idle_setRequest hooked h rfl
  obtain ⟨hend, hlog⟩ := ioschedRunFrom_unused devs hidle.2 rounds (dispatched + 1)
  unfold ioschedRunFrom
  rw [Traced.state_bind, Traced.log_bind, Traced.result_reads, Traced.state_reads,
    Traced.log_reads, id,
    ioschedPickNext_onlyUsed h]
  dsimp only
  rw [hreq]
  unfold ioschedIssue
  simp only [Traced.state_bind, Traced.log_bind, Traced.state_modifies, Traced.log_modifies,
    Traced.state_pure,
    Traced.log_pure, hstate, hreq]
  rw [hend, hlog]
  refine ⟨hidle, ?_⟩
  simp

/-- The hook runs the transfer at once and reports success whatever it does. -/
theorem ioschedEnqueueHook_idle (h : Idle s) (write : Bool) (dev : Int) (lba : UInt64)
    (hcount : count ≠ 0) (hbuffer : buffer ≠ 0) :
    (ioschedEnqueueHook devs write dev lba count buffer).result s = true ∧
      Idle ((ioschedEnqueueHook devs write dev lba count buffer).state s) ∧ ∃ t :
      BlockIo σ, t.machine = s.machine ∧
        (ioschedEnqueueHook devs write dev lba count buffer).log s =
          (blockdevRawSectors devs write dev lba count buffer).log t := by
  obtain ⟨i, hslot⟩ := ioschedAllocSlot_idle h
  have honly : OnlyUsed (s.setRequest i ⟨true, dev, lba, count, buffer, write⟩) i :=
    onlyUsed_setRequest h i rfl
  have hentry : (s.setRequest i ⟨true, dev, lba, count, buffer, write⟩).queue i =
      ⟨true, dev, lba, count, buffer, write⟩ := by
    rw [queue_setRequest, Function.update_self]
  have hmerge := ioschedTryMerge_onlyUsed honly hentry hcount
  have hooked : (s.setRequest i ⟨true, dev, lba, count, buffer, write⟩).hooked = true := h.1
  obtain ⟨hidle, hlog⟩ := ioschedRunFrom_onlyUsed devs hooked honly hentry 63 0
  unfold ioschedEnqueueHook
  rw [if_neg (not_or.mpr ⟨hcount, hbuffer⟩), Traced.result_bind, Traced.state_bind, Traced.log_bind,
    Traced.result_reads, Traced.state_reads, Traced.log_reads, id, hslot]
  dsimp only
  rw [Traced.result_bind, Traced.state_bind, Traced.log_bind, Traced.state_modifies,
    Traced.log_modifies,
    Traced.result_bind, Traced.state_bind, Traced.log_bind, Traced.state_modifies, Traced.log_modifies, hmerge]
  dsimp only
  refine ⟨rfl, hidle, s.setRequest i ⟨true, dev, lba, count, buffer, write⟩, rfl, ?_⟩
  rw [Traced.log_bind, Traced.log_pure, List.append_nil, List.nil_append, List.nil_append,
    List.nil_append]
  exact hlog

/-- With the hook a transfer goes through the queue. -/
theorem blockdevSectors_hooked (h : s.hooked = true) (write : Bool) (dev : Int) (lba : UInt64)
    (count : UInt32) (buffer : UInt64) :
    (blockdevSectors devs write dev lba count buffer).result s =
        (ioschedEnqueueHook devs write dev lba count buffer).result s ∧
      (blockdevSectors devs write dev lba count buffer).state s =
        (ioschedEnqueueHook devs write dev lba count buffer).state s ∧
      (blockdevSectors devs write dev lba count buffer).log s =
        (ioschedEnqueueHook devs write dev lba count buffer).log s := by
  unfold blockdevSectors
  rw [Traced.result_bind, Traced.state_bind, Traced.log_bind, Traced.result_reads,
    Traced.state_reads, Traced.log_reads, h]
  exact ⟨rfl, rfl, rfl⟩

/-- The queue is idle after every call. -/
theorem idle_blockIoStep (s : BlockIo σ) (a : BlockIoAction) (s' : BlockIo σ) (h : Idle s)
    (hstep : blockIoStep devs s a = some s') : Idle s' := by
  cases a with
  | transfer write dev lba count buffer =>
    unfold blockIoStep at hstep
    rw [Option.some.injEq, (blockdevSectors_hooked devs h.1 write dev lba count buffer).2.1] at hstep
    rw [← hstep]
    by_cases harg : count = 0 ∨ buffer = 0
    · unfold ioschedEnqueueHook
      rw [if_pos harg, Traced.state_pure]
      exact h
    · exact (ioschedEnqueueHook_idle devs h write dev lba (not_or.mp harg).1 (not_or.mp harg).2).2.1
  | setAlgorithm algo =>
    unfold blockIoStep at hstep
    rw [← Option.some.inj hstep]
    exact h
  | run =>
    unfold blockIoStep ioschedRun at hstep
    rw [Option.some.injEq, (ioschedRunFrom_unused devs h.2 64 0).1] at hstep
    rwa [← hstep]

end

/-- A transfer reports what the raw transfer reports, and when it reports success every sector of
the request has been moved once, in order, to or from its own part of the buffer. -/
structure FaithfulReport (devs : List (BlockDev σ)) (s : BlockIo σ) (write : Bool) (dev : Int) (lba : UInt64) (count : UInt32)
    (buffer : UInt64) : Prop where
  result : (blockdevSectors devs write dev lba count buffer).result s =
    (blockdevRawSectors devs write dev lba count buffer).result s
  sectors : (blockdevSectors devs write dev lba count buffer).result s = true → ∃ d, blockdevGet devs dev = some d ∧
      ((blockdevSectors devs write dev lba count buffer).log s).flatMap (DriverCall.sectors d.sectorSize) =
        (List.range' 0 count.toNat).map (sectorAt dev write lba buffer d.sectorSize)

/-- With the hook installed, in every state that requests and changes of the algorithm lead to: a
request without sectors or without a buffer is refused either way, and any other is reported
faithfully exactly when the device exists and its driver answers all calls with success. -/
theorem hookTransparent_iff (devs : List (BlockDev σ)) (m : σ) (as : List BlockIoAction)
    (s : BlockIo σ) (h : Run (blockIoStep devs) (ioschedInit m) as s) (write : Bool) (dev : Int)
    (lba : UInt64) (count : UInt32) (buffer : UInt64) :
    FaithfulReport devs s write dev lba count buffer ↔
      count = 0 ∨ buffer = 0 ∨ Succeeds devs s.machine write dev lba count buffer := by
  have hidle : Idle s := h.invariant (idle_blockIoStep devs) ⟨rfl, fun _ => rfl⟩
  obtain ⟨hresult, -, hlog⟩ := blockdevSectors_hooked devs hidle.1 write dev lba count buffer
  by_cases harg : count = 0 ∨ buffer = 0
  · have hhook : (ioschedEnqueueHook devs write dev lba count buffer).result s = false := by
      unfold ioschedEnqueueHook
      rw [if_pos harg, Traced.result_pure]
    have hraw : (blockdevRawSectors devs write dev lba count buffer).result s = false := by
      unfold blockdevRawSectors
      rw [if_pos harg.symm, Traced.result_pure]
    refine iff_of_true ⟨?_, ?_⟩ (harg.imp id Or.inl)
    · rw [hresult, hhook, hraw]
    · rw [hresult, hhook]
      exact fun hok => absurd hok Bool.false_ne_true
  · obtain ⟨hcount, hbuffer⟩ := not_or.mp harg
    obtain ⟨hok, -, t, ht, hcalls⟩ := ioschedEnqueueHook_idle devs hidle write dev lba hcount hbuffer
    have hraw := result_blockdevRawSectors_iff devs write dev lba hcount hbuffer s
    rw [or_iff_right hcount, or_iff_right hbuffer]
    constructor
    · intro htransparent
      apply hraw.mp
      rw [← htransparent.result, hresult, hok]
    · intro hsucceeds
      refine ⟨?_, fun _ => ?_⟩
      · rw [hresult, hok, hraw.mpr hsucceeds]
      · obtain ⟨d, hget, hall⟩ := hsucceeds
        refine ⟨d, hget, ?_⟩
        rw [hlog, hcalls, log_blockdevRawSectors devs write dev lba hcount hbuffer hget (by rw [ht, hall])]
        exact sectors_transferCalls dev d write lba hcount buffer

def steadyDisk (ok : Bool) : BlockDev Unit where
  sectorSize := 512
  maxTransferSectors := 128
  readSector := some fun _ _ _ => (ok, ())
  readSectors := none
  writeSector := some fun _ _ _ => (ok, ())
  writeSectors := none

/-- A change of the algorithm, a write and a run of the queue come before the read. -/
theorem hookTransparent_steadyDisk : ∃ s, Run (blockIoStep [steadyDisk true]) (ioschedInit ())
      [.setAlgorithm 1, .transfer true 0 3 1 0x2000, .run] s ∧
      FaithfulReport [steadyDisk true] s false 0 7 2 0x1000 := by
  have hrun : Run (blockIoStep [steadyDisk true]) (ioschedInit ()) [.setAlgorithm 1, .transfer true 0 3 1 0x2000, .run] _ :=
    .cons rfl (.cons rfl (.cons rfl (.nil _)))
  exact ⟨_, hrun, (hookTransparent_iff [steadyDisk true] () _ _ hrun false 0 7 2 0x1000).mpr
    (Or.inr (Or.inr ⟨steadyDisk true, rfl, rfl⟩))⟩

theorem hookHides_failingDisk :
    (blockdevSectors [steadyDisk false] false 0 7 1 0x1000).result (ioschedInit ()) = true ∧
      (blockdevRawSectors [steadyDisk false] false 0 7 1 0x1000).result (ioschedInit ()) = false ∧
      ¬ FaithfulReport [steadyDisk false] (ioschedInit ()) false 0 7 1 0x1000 := by
  have hhook : (blockdevSectors [steadyDisk false] false 0 7 1 0x1000).result (ioschedInit ()) =
      true := by
    rw [(blockdevSectors_hooked _ rfl _ _ _ _ _).1]
    exact (ioschedEnqueueHook_idle _ ⟨rfl, fun _ => rfl⟩ _ _ _ (by decide) (by decide)).1
  have hraw : (blockdevRawSectors [steadyDisk false] false 0 7 1 0x1000).result (ioschedInit ()) =
      false := rfl
  refine ⟨hhook, hraw, ?_⟩
  intro htransparent
  have := htransparent.result
  rw [hhook, hraw] at this
  exact absurd this.symm Bool.false_ne_true

end Monios.Analysis
