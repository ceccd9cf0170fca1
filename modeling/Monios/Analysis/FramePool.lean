import Monios.Library.Bitmap
import Monios.Library.Run
import Monios.Model.Frame

/-!
# Runs of frames

What the frame allocator does to its bitmap. Marking a range is all or nothing, whatever the range
is: the sum of start and length may wrap, but the marks stop at the last frame and are rolled back.
-/

set_option autoImplicit false

namespace Monios.Analysis

open Monios.Library Monios.Library.Bitmap Monios.Model.Frame

variable {bits : Bits} {base : UInt64} {start count : Nat} {s : Frames} {i : Nat} {value : Bool}

def fill (value : Bool) (bits : Bits) (start count : Nat) : Bits :=
  fun i => if start ≤ i ∧ i < start + count then value else bits i

def AllBits (value : Bool) (bits : Bits) (start count : Nat) : Prop :=
  ∀ k, k < count → bits (start + k) = value

/-- Filling no bits changes nothing. -/
theorem fill_zero (value : Bool) (bits : Bits) (start : Nat) : fill value bits start 0 = bits := by
  funext i
  unfold fill
  rw [if_neg (by omega)]

/-- Filling one bit more. -/
theorem fill_succ (value : Bool) (bits : Bits) (start count : Nat) :
    Function.update (fill value bits start count) (start + count) value =
      fill value bits start (count + 1) := by
  funext i
  unfold fill
  by_cases hi : i = start + count
  · subst hi
    rw [Function.update_self, if_pos (by omega)]
  · rw [Function.update_of_ne hi]
    have hiff : (start ≤ i ∧ i < start + count) ↔ (start ≤ i ∧ i < start + (count + 1)) := by omega
    simp only [hiff]

/-- The bit behind a filled range is as before. -/
theorem fill_apply_end (value : Bool) (bits : Bits) (start count : Nat) :
    fill value bits start count (start + count) = bits (start + count) := by
  unfold fill
  rw [if_neg (by omega)]

/-- The rollback restores the range that was marked. -/
theorem rollback_fill {allocate : Bool} (hend : start + count ≤ frameTotalCount)
    (hall : AllBits (!allocate) bits start count) :
    rollback allocate start count (fill allocate bits start count) = bits := by
  -- after `r` rounds the first `r` bits are the old ones
  have hround (r : Nat) (hr : r ≤ count) :
      (List.range r).foldl (fun bits k => (bitmapWrite (!allocate) bits ((start + k) % 2 ^ 32)).getD bits)
        (fill allocate bits start count) = fill allocate bits (start + r) (count - r) := by
    induction r with
    | zero => rfl
    | succ r ih =>
      rw [List.range_succ, List.foldl_append, ih (by omega), List.foldl_cons, List.foldl_nil]
      have hpos : (start + r) % 2 ^ 32 = start + r := by
        unfold frameTotalCount at hend
        omega
      have hset : fill allocate bits (start + r) (count - r) (start + r) = allocate := by
        unfold fill
        rw [if_pos (by omega)]
      unfold bitmapWrite
      rw [hpos, hset, if_neg (by cases allocate <;> simp <;> omega), Option.getD_some]
      funext i
      unfold fill
      by_cases hi : i = start + r
      · subst hi
        rw [Function.update_self, if_neg (by omega), hall r (by omega)]
      · rw [Function.update_of_ne hi]
        have hiff : (start + r ≤ i ∧ i < start + r + (count - r)) ↔
            (start + (r + 1) ≤ i ∧ i < start + (r + 1) + (count - (r + 1))) := by omega
        simp only [hiff]
  unfold rollback
  rw [hround count le_rfl, Nat.sub_self, fill_zero]

/-- The loop marks the whole range, or meets a bit that is set already and rolls back. -/
theorem markFrom_spec (allocate : Bool) (bits : Bits) (start left index : Nat)
    (hend : start + index ≤ frameTotalCount) (hall : AllBits (!allocate) bits start index) :
    (markFrom allocate start left index (fill allocate bits start index) =
      (true, fill allocate bits start (index + left)) ∧
        start + (index + left) ≤ frameTotalCount ∧ AllBits (!allocate) bits start (index + left)) ∨
      (markFrom allocate start left index (fill allocate bits start index) = (false, bits) ∧
        ¬ (start + (index + left) ≤ frameTotalCount ∧
          AllBits (!allocate) bits start (index + left))) := by
  induction left generalizing index with
  | zero => exact Or.inl ⟨rfl, hend, hall⟩
  | succ left ih =>
    have hpos : (start + index) % 2 ^ 32 = start + index := by
      unfold frameTotalCount at hend
      omega
    unfold markFrom bitmapWrite
    rw [hpos, fill_apply_end]
    by_cases hstop : start + index ≥ frameTotalCount ∨ bits (start + index) = allocate
    · rw [if_pos hstop]
      dsimp only
      rw [rollback_fill hend hall]
      refine Or.inr ⟨rfl, ?_⟩
      rintro ⟨hlen, hbits⟩
      rcases hstop with hstop | hstop
      · omega
      · have := hbits index (by omega)
        rw [hstop] at this
        cases allocate <;> simp at this
    · rw [if_neg hstop]
      dsimp only
      rw [fill_succ]
      obtain ⟨hin, hbit⟩ := not_or.mp hstop
      have hall' : AllBits (!allocate) bits start (index + 1) := by
        intro k hk
        by_cases hki : k = index
        · rw [hki]
          exact Bool.eq_not_of_ne hbit
        · exact hall k (by omega)
      have := ih (index + 1) (by omega) hall'
      rwa [Nat.add_right_comm, Nat.add_assoc index left 1] at this

/-- `frame_mark_range` marks a range that is inside and of one kind, and nothing else. -/
theorem frameMarkRange_spec (start count : Nat) (allocate : Bool) (bits : Bits) :
    (frameMarkRange start count allocate bits = (true, fill allocate bits start count) ∧ 0 < count ∧
        start + count ≤ frameTotalCount ∧ AllBits (!allocate) bits start count) ∨
      (frameMarkRange start count allocate bits = (false, bits) ∧
        ¬ (0 < count ∧ start + count ≤ frameTotalCount ∧
          AllBits (!allocate) bits start count)) := by
  unfold frameMarkRange frameRangeValid
  by_cases hvalid : count > 0 ∧ start < frameTotalCount ∧ (start + count) % 2 ^ 32 ≤ frameTotalCount
  · rw [if_pos (decide_eq_true hvalid)]
    have hspec := markFrom_spec allocate bits start count 0 (by omega) (fun k hk => absurd hk (Nat.not_lt_zero k))
    rw [Nat.zero_add, fill_zero] at hspec
    rcases hspec with ⟨heq, hend, hall⟩ | ⟨heq, hnot⟩
    · exact Or.inl ⟨heq, hvalid.1, hend, hall⟩
    · exact Or.inr ⟨heq, fun h => hnot h.2⟩
  · rw [if_neg (by rw [decide_eq_true_eq]; exact hvalid)]
    refine Or.inr ⟨rfl, ?_⟩
    rintro ⟨hpos, hlen, -⟩
    apply hvalid
    unfold frameTotalCount at *
    omega

def setFrames (bits : Bits) : Nat := popcount fun i : Fin frameTotalCount => bits i

/-- No more frames are set than there are. -/
theorem setFrames_le (bits : Bits) : setFrames bits ≤ frameTotalCount := by
  unfold setFrames popcount
  exact (Finset.card_le_univ _).trans (Fintype.card_fin _).le

/-- Allocating a free range counts its frames. -/
theorem setFrames_fill_true (hend : start + count ≤ frameTotalCount)
    (hall : AllBits false bits start count) :
    setFrames (fill true bits start count) = setFrames bits + count := by
  induction count with
  | zero => rw [fill_zero, Nat.add_zero]
  | succ count ih =>
    have hlast : fill true bits start count (start + count) = false := by
      rw [fill_apply_end, hall count (Nat.lt_succ_self count)]
    have hset : setFrames (fill true bits start (count + 1)) =
        setFrames (fill true bits start count) + 1 := by
      rw [← fill_succ]
      unfold setFrames
      rw [← popcount_set (i := (⟨start + count, by omega⟩ : Fin frameTotalCount)) hlast]
      congr 1
      funext i
      by_cases hi : i = ⟨start + count, by omega⟩
      · subst hi
        rw [Function.update_self, Function.update_self]
      · rw [Function.update_of_ne hi, Function.update_of_ne (fun h => hi (Fin.ext h))]
    rw [hset, ih (by omega) (fun k hk => hall k (by omega))]
    omega

/-- Freeing a range that is set counts its frames back. -/
theorem setFrames_fill_false (hend : start + count ≤ frameTotalCount)
    (hall : AllBits true bits start count) :
    setFrames (fill false bits start count) + count = setFrames bits := by
  -- filling the range again gives the old bits back
  have hback : fill true (fill false bits start count) start count = bits := by
    funext i
    unfold fill
    split
    · next hi =>
      have := hall (i - start) (by omega)
      rw [show start + (i - start) = i by omega] at this
      rw [this]
    · rfl
  have hclear : AllBits false (fill false bits start count) start count := by
    intro k hk
    unfold fill
    rw [if_pos (by omega)]
  rw [← setFrames_fill_true hend hclear, hback]

def FreeRun (bits : Bits) (count align i : Nat) : Prop :=
  i % align = 0 ∧ i + count ≤ frameTotalCount ∧ AllBits false bits i count

/-- If no bit is set, the range is free. -/
theorem firstSetBit_none {index count : Nat} (hend : index + count ≤ frameTotalCount)
    (h : firstSetBit bits index count = none) : AllBits false bits index count := by
  unfold firstSetBit at h
  rw [List.find?_eq_none] at h
  intro k hk
  have := h k (List.mem_range.mpr hk)
  unfold bitmapTest frameTotalCount at *
  rw [Nat.mod_eq_of_lt (by omega), decide_eq_true (by omega), Bool.true_and] at this
  exact Bool.eq_false_iff.mpr this

/-- The bit that is found is set and inside the range. -/
theorem firstSetBit_some {index count bit : Nat} (hend : index + count ≤ frameTotalCount)
    (h : firstSetBit bits index count = some bit) : bit < count ∧ bits (index + bit) = true := by
  have hlt := List.mem_range.mp (List.mem_of_find?_eq_some h)
  have hspec := List.find?_some h
  unfold bitmapTest frameTotalCount at *
  rw [Nat.mod_eq_of_lt (by omega), Bool.and_eq_true] at hspec
  exact ⟨hlt, hspec.2⟩

def FindsFrom (bits : Bits) (count align index : Nat) (r : Option Nat) : Prop :=
  match r with
  | some i => index ≤ i ∧ FreeRun bits count align i
  | none => ∀ i, index ≤ i → ¬ FreeRun bits count align i

/-- Where no run starts, the search may skip. -/
theorem FindsFrom.skip {count align index next : Nat} {r : Option Nat}
    (h : FindsFrom bits count align next r) (hle : index ≤ next)
    (hskip : ∀ i, index ≤ i → i < next → ¬ FreeRun bits count align i) :
    FindsFrom bits count align index r := by
  cases r with
  | some i => exact ⟨hle.trans h.1, h.2⟩
  | none =>
    intro i hi
    by_cases hnext : i < next
    · exact hskip i hi hnext
    · exact h i (Nat.le_of_not_lt hnext)

/-- The search finds the first free run from an index on. -/
theorem findRunZeroFrom_spec {count align : Nat} (hcount : 0 < count) (rounds index : Nat)
    (hsum : index + count < 2 ^ 32) (hindex : index ≤ frameTotalCount)
    (hrounds : frameTotalCount < rounds + index) :
    ∃ r, findRunZeroFrom bits count align rounds index = some r ∧
      FindsFrom bits count align index r := by
  induction rounds generalizing index with
  | zero => omega
  | succ rounds ih =>
    unfold findRunZeroFrom
    rw [Nat.mod_eq_of_lt hsum]
    by_cases hend : index + count ≤ frameTotalCount
    · rw [if_pos hend]
      -- the next index is in the pool, and so is all that is added to it
      have hnext {next : Nat} (hgt : index < next) (hle : next ≤ frameTotalCount)
          (hskip : ∀ i, index ≤ i → i < next → ¬ FreeRun bits count align i) :
          ∃ r, findRunZeroFrom bits count align rounds (next % 2 ^ 32) = some r ∧
            FindsFrom bits count align index r := by
        unfold frameTotalCount at *
        rw [Nat.mod_eq_of_lt (by omega)]
        obtain ⟨r, hr, hfinds⟩ := ih next (by omega) hle (by omega)
        exact ⟨r, hr, hfinds.skip hgt.le hskip⟩
      by_cases halign : index % align ≠ 0
      · rw [if_pos halign]
        refine hnext (Nat.lt_succ_self index) (by omega) fun i hi hlt hfree => ?_
        obtain rfl : i = index := by omega
        exact halign hfree.1
      · rw [if_neg halign]
        cases hbit : firstSetBit bits index count with
        | none =>
          exact ⟨some index, rfl, le_rfl, not_not.mp halign, hend, firstSetBit_none hend hbit⟩
        | some bit =>
          -- every run that starts before the set bit contains it
          obtain ⟨hlt, hset⟩ := firstSetBit_some hend hbit
          refine hnext (by omega) (by omega) fun i hi hi' hfree => ?_
          have := hfree.2.2 (index + bit - i) (by omega)
          rw [show i + (index + bit - i) = index + bit by omega, hset] at this
          cases this
    · rw [if_neg hend]
      refine ⟨none, rfl, fun i hi hfree => ?_⟩
      have := hfree.2.1
      omega

/-- `bitmap_find_run_zero` finds the first free run from its start on. -/
theorem bitmapFindRunZero_spec (bits : Bits) (align : Nat) (hcount : 0 < count)
    (hstart : start < frameTotalCount) (hsum : start + count < 2 ^ 32) :
    ∃ r, bitmapFindRunZero bits start count align = some r ∧
      FindsFrom bits count (max align 1) start r := by
  have halign : (if align = 0 then 1 else align) = max align 1 := by
    split
    · next h => rw [h]; rfl
    · next h => rw [Nat.max_eq_left (Nat.pos_of_ne_zero h)]
  unfold bitmapFindRunZero
  dsimp only
  rw [if_neg (by omega), halign]
  refine findRunZeroFrom_spec hcount _ start hsum hstart.le ?_
  unfold frameTotalCount
  omega

/-- The search from the cursor and then from the start finds the first free run of the pool. -/
theorem findFrames_spec {count : Nat} (align : Nat) (hcount : 0 < count)
    (hcursor : s.cursor < frameTotalCount) (hsum : s.cursor + count < 2 ^ 32) :
    ∃ r, findFrames s count align = some r ∧ FindsFrom s.bits count (max align 1) 0 r := by
  obtain ⟨r, hr, hfinds⟩ := bitmapFindRunZero_spec s.bits align hcount hcursor hsum
  unfold findFrames
  rw [hr]
  cases r with
  | some i => exact ⟨some i, rfl, Nat.zero_le i, hfinds.2⟩
  | none => exact bitmapFindRunZero_spec s.bits align hcount (Nat.zero_lt_of_lt hcursor) (by omega)

def frameAddress (i : Nat) : UInt64 := frameBasePhys + UInt64.ofNat i * 4096

/-- The address of a frame does not wrap. -/
theorem toNat_frameAddress (hi : i < frameTotalCount) :
    (frameAddress i).toNat = 0x01000000 + i * 4096 := by
  unfold frameAddress frameBasePhys
  unfold frameTotalCount at hi
  rw [UInt64.toNat_add, UInt64.toNat_mul, UInt64.toNat_ofNat']
  change (0x01000000 + i % 2 ^ 64 * 4096 % 2 ^ 64) % 2 ^ 64 = _
  omega

/-- No frame lies at 0. -/
theorem frameAddress_ne_zero (hi : i < frameTotalCount) : frameAddress i ≠ 0 := by
  intro h
  have := toNat_frameAddress hi
  rw [h] at this
  change 0 = _ at this
  omega

/-- An address is that of the frame it is given back for. -/
theorem frameIndexFromBase_eq_some :
    frameIndexFromBase base = some i ↔ i < frameTotalCount ∧ base = frameAddress i := by
  have hbase : frameBasePhys.toNat = 0x01000000 := rfl
  have hpage : (4096 : UInt64).toNat = 4096 := rfl
  have hzero : (0 : UInt64).toNat = 0 := rfl
  unfold frameIndexFromBase
  constructor
  · intro h
    split at h
    · cases h
    · next hguard =>
      obtain ⟨hge, hmod⟩ := not_or.mp hguard
      rw [UInt64.lt_iff_toNat_lt, hbase] at hge
      have hsub := UInt64.toNat_sub_of_le base frameBasePhys (UInt64.le_iff_toNat_le.mpr (by rw [hbase]; omega))
      rw [not_not, ← UInt64.toNat_inj, UInt64.toNat_mod, hsub, hbase, hpage, hzero] at hmod
      dsimp only at h
      rw [UInt64.toNat_div, hsub, hbase, hpage] at h
      split at h
      · cases h
      · next hlt =>
        obtain rfl := Option.some.inj h
        have hlt' := Nat.lt_of_not_le hlt
        refine ⟨hlt', ?_⟩
        rw [← UInt64.toNat_inj, toNat_frameAddress hlt']
        omega
  · rintro ⟨hi, rfl⟩
    have haddr := toNat_frameAddress hi
    have hsub := UInt64.toNat_sub_of_le (frameAddress i) frameBasePhys
      (UInt64.le_iff_toNat_le.mpr (by rw [hbase, haddr]; omega))
    have hmod : ¬ (frameAddress i < frameBasePhys ∨ (frameAddress i - frameBasePhys) % 4096 ≠ 0) := by
      rw [UInt64.lt_iff_toNat_lt, Ne, ← UInt64.toNat_inj, UInt64.toNat_mod, hsub, haddr, hbase,
        hpage, hzero]
      omega
    rw [if_neg hmod]
    dsimp only
    rw [UInt64.toNat_div, hsub, haddr, hbase, hpage]
    have hdiv : (0x01000000 + i * 4096 - 0x01000000) / 4096 = i := by omega
    rw [hdiv, if_neg (Nat.not_le_of_lt hi)]

structure FramesOk (s : Frames) : Prop where
  used : s.used = setFrames s.bits
  cursor : s.cursor < frameTotalCount

/-- An allocation fails and changes nothing, or marks the run it found. -/
theorem frameAllocAligned_cases {s s' : Frames} {count align : UInt32}
    (h : frameAllocAligned count align s = some (base, s')) : (base = 0 ∧ s' = s) ∨
      ∃ i, findFrames s count.toNat align.toNat = some (some i) ∧ 0 < count.toNat ∧
      i + count.toNat ≤ frameTotalCount ∧
        AllBits false s.bits i count.toNat ∧ base = frameAddress i ∧
        s'.bits = fill true s.bits i count.toNat ∧
        s'.used = (s.used + count.toNat) % 2 ^ 32 ∧ s'.cursor < frameTotalCount := by
  unfold frameAllocAligned at h
  split at h
  · obtain ⟨rfl, rfl⟩ := Prod.mk.inj (Option.some.inj h)
    exact Or.inl ⟨rfl, rfl⟩
  · split at h
    · cases h
    · obtain ⟨rfl, rfl⟩ := Prod.mk.inj (Option.some.inj h)
      exact Or.inl ⟨rfl, rfl⟩
    · next i hfind =>
      rcases frameMarkRange_spec i count.toNat true s.bits with ⟨heq, hpos, hend, hall⟩ | ⟨heq, -⟩
      · rw [heq] at h
        obtain ⟨rfl, rfl⟩ := Prod.mk.inj (Option.some.inj h)
        refine Or.inr ⟨i, hfind, hpos, hend, hall, rfl, rfl, rfl, ?_⟩
        dsimp only
        split
        · unfold frameTotalCount
          omega
        · next hlt => exact Nat.lt_of_not_le hlt
      · rw [heq] at h
        obtain ⟨rfl, rfl⟩ := Prod.mk.inj (Option.some.inj h)
        exact Or.inl ⟨rfl, rfl⟩

def RangeAt (value : Bool) (bits : Bits) (base : UInt64) (count i : Nat) : Prop :=
  base = frameAddress i ∧ 0 < count ∧ i + count ≤ frameTotalCount ∧ AllBits value bits i count

/-- Marking a range from an address succeeds exactly on a range of the other kind. -/
theorem mark_cases (allocate : Bool) (bits : Bits) (base : UInt64) (count : Nat) :
    (∃ i, RangeAt (!allocate) bits base count i ∧ frameIndexFromBase base = some i ∧
        frameMarkRange i count allocate bits = (true, fill allocate bits i count)) ∨
      (¬ ∃ i, RangeAt (!allocate) bits base count i) ∧
        ∀ i, frameIndexFromBase base = some i →
        frameMarkRange i count allocate bits = (false, bits) := by
  by_cases hrange : ∃ i, RangeAt (!allocate) bits base count i
  · obtain ⟨i, hbase, hpos, hend, hall⟩ := hrange
    refine Or.inl ⟨i, ⟨hbase, hpos, hend, hall⟩, frameIndexFromBase_eq_some.mpr ⟨by omega, hbase⟩,
      ?_⟩
    rcases frameMarkRange_spec i count allocate bits with ⟨heq, -⟩ | ⟨-, hnot⟩
    · exact heq
    · exact absurd ⟨hpos, hend, hall⟩ hnot
  · refine Or.inr ⟨hrange, fun i hi => ?_⟩
    rcases frameMarkRange_spec i count allocate bits with ⟨-, hpos, hend, hall⟩ | ⟨heq, -⟩
    · exact absurd ⟨i, (frameIndexFromBase_eq_some.mp hi).2, hpos, hend, hall⟩ hrange
    · exact heq

/-- `frame_free` clears a range that is set, or changes nothing. -/
theorem frameFree_cases (base : UInt64) (count : UInt32) (s : Frames) :
    (∃ i, RangeAt true s.bits base count.toNat i ∧ frameFree base count s = (true, { s with
          bits := fill false s.bits i count.toNat
          used := if s.used ≥ count.toNat then s.used - count.toNat else 0 })) ∨
      (¬ ∃ i, RangeAt true s.bits base count.toNat i) ∧ frameFree base count s = (false, s) := by
  unfold frameFree
  rcases mark_cases false s.bits base count.toNat with ⟨i, hrange, hindex, heq⟩ | ⟨hnone, hfail⟩
  · refine Or.inl ⟨i, hrange, ?_⟩
    rw [hindex]
    dsimp only
    rw [heq]
  · refine Or.inr ⟨hnone, ?_⟩
    cases hindex : frameIndexFromBase base with
    | none => rfl
    | some i =>
      dsimp only
      rw [hfail i hindex]

/-- `frame_reserve` sets a range that is free, or changes nothing. -/
theorem frameReserve_cases (base : UInt64) (count : UInt32) (s : Frames) :
    (∃ i, RangeAt false s.bits base count.toNat i ∧ frameReserve base count s = (true, { s with
          bits := fill true s.bits i count.toNat
          used := (s.used + count.toNat) % 2 ^ 32
          reserved := (s.reserved + count.toNat) % 2 ^ 32 })) ∨
      (¬ ∃ i, RangeAt false s.bits base count.toNat i) ∧ frameReserve base count s = (false, s) := by
  unfold frameReserve
  rcases mark_cases true s.bits base count.toNat with ⟨i, hrange, hindex, heq⟩ | ⟨hnone, hfail⟩
  · refine Or.inl ⟨i, hrange, ?_⟩
    rw [hindex]
    dsimp only
    rw [heq]
  · refine Or.inr ⟨hnone, ?_⟩
    cases hindex : frameIndexFromBase base with
    | none => rfl
    | some i =>
      dsimp only
      rw [hfail i hindex]

/-- The counter follows an allocation. -/
theorem used_fill_true (h : FramesOk s) {i count : Nat} (hend : i + count ≤ frameTotalCount)
    (hall : AllBits false s.bits i count) :
    (s.used + count) % 2 ^ 32 = setFrames (fill true s.bits i count) := by
  have hle := setFrames_le (fill true s.bits i count)
  rw [setFrames_fill_true hend hall, ← h.used] at *
  unfold frameTotalCount at hle
  omega

/-- Every call keeps the counter and the cursor right. -/
theorem framesOk_step (s : Frames) (c : Call) (s' : Frames) (h : FramesOk s)
    (hstep : step s c = some s') : FramesOk s' := by
  cases c with
  | alloc count align =>
    obtain ⟨⟨base, t⟩, halloc, rfl⟩ := Option.map_eq_some_iff.mp hstep
    rcases frameAllocAligned_cases halloc with ⟨-, rfl⟩ | ⟨i, -, -, hend, hall, -, hbits, hused, hcursor⟩
    · exact h
    · refine ⟨?_, hcursor⟩
      rw [hused, hbits]
      exact used_fill_true h hend hall
  | free base count =>
    obtain rfl := Option.some.inj hstep
    rcases frameFree_cases base count s with ⟨i, ⟨-, -, hend, hall⟩, heq⟩ | ⟨-, heq⟩
    · rw [heq]
      refine ⟨?_, h.cursor⟩
      have hcount := setFrames_fill_false hend hall
      dsimp only
      rw [h.used, if_pos (by omega)]
      omega
    · rw [heq]
      exact h
  | reserve base count =>
    obtain rfl := Option.some.inj hstep
    rcases frameReserve_cases base count s with ⟨i, ⟨-, -, hend, hall⟩, heq⟩ | ⟨-, heq⟩
    · rw [heq]
      exact ⟨used_fill_true h hend hall, h.cursor⟩
    · rw [heq]
      exact h

/-- The counter and the cursor of the empty pool are right. -/
theorem framesOk_init : FramesOk {} := by
  refine ⟨?_, Nat.zero_lt_succ 16383⟩
  unfold setFrames
  rw [popcount_zero]

/-- A call that gives the range at an address a value: it succeeds when the range is in the pool and
has the other value throughout, and else it changes no bit. -/
structure MarksRange (value : Bool) (s : Frames) (base : UInt64) (count : Nat) (r : Bool × Frames) : Prop where
  succeeds : r.1 = true ↔ ∃ i, RangeAt (!value) s.bits base count i
  bits : ∀ i, RangeAt (!value) s.bits base count i → r.2.bits = fill value s.bits i count
  fails : r.1 = false → r.2.bits = s.bits

def CallCorrect (s : Frames) : Call → Prop
  | .alloc count align =>
    ∃ base s', frameAllocAligned count align s = some (base, s') ∧
      (base ≠ 0 ↔ 0 < count.toNat ∧ ∃ i, FreeRun s.bits count.toNat (max align.toNat 1) i) ∧
      (base ≠ 0 → ∃ i, FreeRun s.bits count.toNat (max align.toNat 1) i ∧ base = frameAddress i ∧
        s'.bits = fill true s.bits i count.toNat) ∧
      (base = 0 → s'.bits = s.bits)
  | .free base count => MarksRange false s base count.toNat (frameFree base count s)
  | .reserve base count => MarksRange true s base count.toNat (frameReserve base count s)

def NoWrap (s : Frames) : Call → Prop
  | .alloc count _ => s.cursor + count.toNat < 2 ^ 32
  | _ => True

/-- An address starts one range. -/
theorem RangeAt.unique {count i j : Nat} (hi : RangeAt value bits base count i)
    (hj : RangeAt value bits base count j) : i = j := by
  obtain ⟨hi, hpos, hend, -⟩ := hi
  obtain ⟨hj, -, hend', -⟩ := hj
  have haddr : (frameAddress i).toNat = (frameAddress j).toNat := by rw [← hi, hj]
  rw [toNat_frameAddress (by omega), toNat_frameAddress (by omega)] at haddr
  omega

/-- A range of the right kind is marked. -/
theorem marksRange_success {s s' : Frames} {count i : Nat}
    (hrange : RangeAt (!value) s.bits base count i) (hbits : s'.bits = fill value s.bits i count) :
    MarksRange value s base count (true, s') := by
  refine ⟨iff_of_true rfl ⟨i, hrange⟩, fun j hj => ?_, fun hfail => absurd hfail.symm Bool.false_ne_true⟩
  rw [← hrange.unique hj, hbits]

/-- Without such a range nothing is marked. -/
theorem marksRange_failure {count : Nat}
    (hnone : ¬ ∃ i, RangeAt (!value) s.bits base count i) :
    MarksRange value s base count (false, s) :=
  ⟨iff_of_false Bool.false_ne_true hnone, fun i hi => absurd ⟨i, hi⟩ hnone, fun _ => rfl⟩

/-- An allocation whose search does not wrap answers as it should. -/
theorem callCorrect_alloc (h : FramesOk s) {count align : UInt32}
    (hwrap : s.cursor + count.toNat < 2 ^ 32) :
    CallCorrect s (.alloc count align) := by
  by_cases hzero : count = 0
  · subst hzero
    refine ⟨0, s, rfl, iff_of_false (fun h => h rfl) (fun h => absurd h.1 (Nat.lt_irrefl 0)),
      fun h => absurd rfl h,
      fun _ => rfl⟩
  · have hpos : 0 < count.toNat := Nat.pos_of_ne_zero fun h => hzero (UInt32.toNat_inj.mp h)
    obtain ⟨r, hr, hfinds⟩ := findFrames_spec align.toNat hpos h.cursor hwrap
    have halloc : frameAllocAligned count align s = frameAllocAligned count align s := rfl
    conv_rhs at halloc =>
      unfold frameAllocAligned
      rw [if_neg hzero, hr]
    cases r with
    | none =>
      refine ⟨0, s, halloc, iff_of_false (fun h => h rfl) ?_, fun h => absurd rfl h, fun _ => rfl⟩
      rintro ⟨-, i, hi⟩
      exact hfinds i (Nat.zero_le i) hi
    | some i =>
      obtain ⟨-, hfree⟩ := hfinds
      have hin : i < frameTotalCount := by
        have := hfree.2.1
        omega
      rcases frameMarkRange_spec i count.toNat true s.bits with ⟨heq, -⟩ | ⟨-, hnot⟩
      · dsimp only at halloc
        rw [heq] at halloc
        exact ⟨frameAddress i, _, halloc, iff_of_true (frameAddress_ne_zero hin) ⟨hpos, i, hfree⟩,
          fun _ => ⟨i, hfree, rfl, rfl⟩, fun h => absurd h (frameAddress_ne_zero hin)⟩
      · exact absurd ⟨hpos, hfree.2⟩ hnot

/-- In every state that calls lead to, the counter is the number of set bits, and the next call does
what it should as long as the search does not wrap. -/
theorem framePool_run (cs : List Call) (s : Frames) (h : Run step {} cs s) :
    s.used = setFrames s.bits ∧ ∀ c, NoWrap s c → CallCorrect s c := by
  have hok : FramesOk s := h.invariant framesOk_step framesOk_init
  refine ⟨hok.used, fun c hc => ?_⟩
  cases c with
  | alloc count align => exact callCorrect_alloc hok hc
  | free base count =>
    rcases frameFree_cases base count s with ⟨i, hrange, heq⟩ | ⟨hnone, heq⟩
    · change MarksRange false s base count.toNat (frameFree base count s)
      rw [heq]
      exact marksRange_success hrange rfl
    · change MarksRange false s base count.toNat (frameFree base count s)
      rw [heq]
      exact marksRange_failure hnone
  | reserve base count =>
    rcases frameReserve_cases base count s with ⟨i, hrange, heq⟩ | ⟨hnone, heq⟩
    · change MarksRange true s base count.toNat (frameReserve base count s)
      rw [heq]
      exact marksRange_success hrange rfl
    · change MarksRange true s base count.toNat (frameReserve base count s)
      rw [heq]
      exact marksRange_failure hnone

def twoFrames : Frames where
  bits := Function.update (Function.update (fun _ => false) 0 true) 1 true
  used := 2
  cursor := 2

/-- With the first two frames in use, a search for `2 ^ 32 - 1` frames goes from frame 2 over the
end of the bitmap and of the 32-bit sum to frame 0, from there to frame 1, and back to frame 2. -/
theorem findRunZeroFrom_twoFrames {count : Nat} (hcount : count + 1 = 2 ^ 32) (rounds : Nat) :
    findRunZeroFrom twoFrames.bits count 1 rounds 2 = none ∧
      findRunZeroFrom twoFrames.bits count 1 rounds 1 = none := by
  have hone : firstSetBit twoFrames.bits 1 count = some 0 := by
    unfold firstSetBit
    rw [List.find?_range_eq_some]
    exact ⟨rfl, List.mem_range.mpr (by omega), fun j hj => absurd hj (Nat.not_lt_zero j)⟩
  have htwo : firstSetBit twoFrames.bits 2 count = some (count - 1) := by
    unfold firstSetBit
    rw [List.find?_range_eq_some]
    refine ⟨?_, List.mem_range.mpr (by omega), fun j hj => ?_⟩
    · have hback : (2 + (count - 1)) % 2 ^ 32 = 0 := by omega
      rw [hback]
      rfl
    · rw [Nat.mod_eq_of_lt (by omega)]
      unfold bitmapTest twoFrames
      dsimp only
      rw [Function.update_of_ne (by omega), Function.update_of_ne (by omega), Bool.and_false]
      rfl
  have hwrap {index : Nat} (h : 0 < index) (h' : index ≤ 2) : (index + count) % 2 ^ 32 ≤ frameTotalCount := by
    unfold frameTotalCount
    omega
  induction rounds with
  | zero => exact ⟨rfl, rfl⟩
  | succ rounds ih =>
    constructor
    · unfold findRunZeroFrom
      rw [if_pos (hwrap (by omega) (by omega)), if_neg (not_not.mpr (Nat.mod_one 2)), htwo]
      have hnext : (2 + (count - 1) + 1) % 2 ^ 32 = 1 := by omega
      dsimp only
      rw [hnext]
      exact ih.2
    · unfold findRunZeroFrom
      rw [if_pos (hwrap (by omega) (by omega)), if_neg (not_not.mpr (Nat.mod_one 1)), hone]
      exact ih.1

/-- In an empty pool the first two frames are found at once. -/
theorem findRunZeroFrom_clear (rounds : Nat) :
    findRunZeroFrom (fun _ => false) 2 1 (rounds + 1) 0 = some (some 0) := by
  unfold findRunZeroFrom
  rfl

/-- The first allocation of two frames. -/
theorem step_twoFrames : step {} (.alloc 2 1) = some twoFrames := by
  have hfind : bitmapFindRunZero (fun _ => false) 0 2 1 = some (some 0) := by
    unfold bitmapFindRunZero
    exact findRunZeroFrom_clear (2 ^ 32 - 1)
  have hframes : findFrames {} (2 : UInt32).toNat (1 : UInt32).toNat = some (some 0) := by
    unfold findFrames
    rw [show bitmapFindRunZero ({} : Frames).bits ({} : Frames).cursor (2 : UInt32).toNat (1 : UInt32).toNat = _ from hfind]
  have hmark : frameMarkRange 0 (2 : UInt32).toNat true (fun _ => false) = (true, twoFrames.bits) :=
    rfl
  change (frameAllocAligned 2 1 {}).map Prod.snd = some twoFrames
  unfold frameAllocAligned
  rw [if_neg (by decide), hframes]
  dsimp only
  rw [hmark]
  rfl

/-- After two frames were handed out, the next call is answered as it should be. -/
theorem framePool_run_twoFrames : CallCorrect twoFrames (.alloc 4 1) :=
  (framePool_run [.alloc 2 1] twoFrames (.cons step_twoFrames (.nil _))).2 (.alloc 4 1)
    (show 2 + (4 : UInt32).toNat < 2 ^ 32 by decide)

theorem not_callCorrect_twoFrames :
    Run step {} [.alloc 2 1] twoFrames ∧ ¬ CallCorrect twoFrames (.alloc 0xFFFFFFFF 1) := by
  refine ⟨.cons step_twoFrames (.nil _), ?_⟩
  rintro ⟨base, s', halloc, -⟩
  have hnone {count : Nat} (hcount : count + 1 = 2 ^ 32) : findFrames twoFrames count 1 = none := by
    have hfind : bitmapFindRunZero twoFrames.bits 2 count 1 = none := by
      unfold bitmapFindRunZero
      dsimp only
      rw [if_neg (by unfold frameTotalCount; omega), if_neg Nat.one_ne_zero]
      exact (findRunZeroFrom_twoFrames hcount _).1
    unfold findFrames
    rw [show twoFrames.cursor = 2 from rfl, hfind]
  have hcount : (0xFFFFFFFF : UInt32).toNat + 1 = 2 ^ 32 := rfl
  unfold frameAllocAligned at halloc
  rw [if_neg (by decide), show (1 : UInt32).toNat = 1 from rfl, hnone hcount] at halloc
  cases halloc

end Monios.Analysis
