import Monios.Model.Frame

/-!
# The memory test

The session of `kernel/mm/memtest.c` that `SYS_MEMTEST_CTL` drives: a window of physical memory, and
a cursor that moves through it with every query of the status.  `frame_is_used` is all that keeps
the test from a page, and it answers false outside the pool of frames and for addresses that are not
aligned.

Left out are the counters of bytes, errors and ticks, which the caller is shown and nothing else
reads.
-/

set_option autoImplicit false

namespace Monios.Model.Memtest

open Monios.Model.Frame

/-- `MEMTEST_QUICK`, `MEMTEST_FULL` and `MEMTEST_DEFAULT_BYTES` -/
def memtestQuick : UInt64 := 1

def memtestFull : UInt64 := 2

def memtestDefaultBytes : UInt64 := 64 * 1024 * 1024

/-- The end of the pool. -/
def frameEndPhys : UInt64 := 0x05000000

/-- What `g_memtest` has of a session. -/
structure Session where
  mode : UInt64 := 0
  running : Bool := false
  cancelled : Bool := false
  rangeStart : UInt64 := 0
  rangeEnd : UInt64 := 0
  cursor : UInt64 := 0
  /-- Whether the window starts at the address that the caller gave.  This is not part of
  `g_memtest`. -/
  supplied : Bool := false
  window : rangeEnd ≤ 0x09000000 := by decide

/-- Whether `memtest_pick_range` takes the start that it is given. -/
def inPool (start : UInt64) : Bool := !(start < frameBasePhys || start ≥ frameEndPhys)

def pickStart (start : UInt64) : UInt64 := if inPool start then start else frameBasePhys

/-- The end of the window, before it is rounded down.  One below the start is moved to 64 MiB behind
it. -/
def pickEnd (start stop : UInt64) : UInt64 :=
  let stop := if stop = 0 ∨ stop > frameEndPhys then frameEndPhys else stop
  if stop - start > memtestDefaultBytes then start + memtestDefaultBytes else stop

def memtestPickRange (start stop : UInt64) : Option (UInt64 × UInt64) :=
  let start := pickStart start
  let stop := pickEnd start stop
  if stop ≤ start + 4096 then none
  else
    let stop := stop - stop % 4096
    if stop ≤ start then none else some (start, stop)

theorem pickStart_le (start : UInt64) : (pickStart start).toNat ≤ 0x05000000 := by
  unfold pickStart
  split
  · next hin =>
    unfold inPool at hin
    simp only [Bool.not_or, Bool.and_eq_true, Bool.not_eq_true', decide_eq_false_iff_not,
      ge_iff_le] at hin
    exact Nat.le_of_lt (UInt64.lt_iff_toNat_lt.mp (UInt64.not_le.mp hin.2))
  · decide

theorem pickEnd_le {start : UInt64} (hstart : start.toNat ≤ 0x05000000) (stop : UInt64) :
    (pickEnd start stop).toNat ≤ 0x09000000 := by
  have hclamp : (if stop = 0 ∨ stop > frameEndPhys then frameEndPhys else stop).toNat ≤ 0x05000000 := by
    split
    · decide
    · next hstop =>
      rw [not_or] at hstop
      exact UInt64.le_iff_toNat_le.mp (UInt64.not_lt.mp hstop.2)
  unfold pickEnd
  dsimp only
  generalize (if stop = 0 ∨ stop > frameEndPhys then frameEndPhys else stop) = last at hclamp ⊢
  split
  · rw [UInt64.toNat_add, show memtestDefaultBytes.toNat = 0x04000000 from rfl]
    omega
  · omega

theorem memtestPickRange_le {start stop a b : UInt64}
    (h : memtestPickRange start stop = some (a, b)) : b ≤ 0x09000000 := by
  have hend := pickEnd_le (pickStart_le start) stop
  unfold memtestPickRange at h
  dsimp only at h
  generalize pickEnd (pickStart start) stop = last at h hend
  split at h
  · cases h
  · split at h
    · cases h
    · obtain ⟨-, rfl⟩ := Prod.mk.inj (Option.some.inj h)
      have hmod : (last % 4096).toNat ≤ last.toNat := by
        rw [UInt64.toNat_mod]
        exact Nat.mod_le _ _
      rw [UInt64.le_iff_toNat_le, UInt64.toNat_sub_of_le _ _ (UInt64.le_iff_toNat_le.mpr hmod)]
      exact (Nat.sub_le _ _).trans hend

/-- `memtest_count_free`: the number of bytes. -/
def memtestCountFree (bits : Bits) (start stop : UInt64) : Nat :=
  (List.range ((stop - start).toNat / 4096)).countP (fun i => !frameIsUsed bits (start + UInt64.ofNat i * 4096)) * 4096

def memtestStart (bits : Bits) (mode rangeStart rangeEnd : UInt64) (s : Session) : Int × Session :=
  let mode := if mode > memtestFull then memtestQuick else mode
  match hrange : memtestPickRange rangeStart rangeEnd with
  | none => (-1, s)
  | some (start, stop) =>
    if memtestCountFree bits start stop = 0 then (-2, s)
    else
      (0, { mode := mode, running := true, rangeStart := start, rangeEnd := stop, cursor := start,
            supplied := inPool rangeStart, window := memtestPickRange_le hrange })

/-- The bytes of a page that `memtest_range` writes: it goes by words of eight bytes. -/
def testedBytes (rangeEnd page : UInt64) : Nat :=
  (if page + 4096 > rangeEnd then (rangeEnd - page).toNat else 4096) / 8 * 8

/-- The loop of `memtest_step` in a session that is not cancelled: the pages that are written, and
the cursor behind them. `rounds` pages are left in the window. -/
def stepFrom (bits : Bits) (rangeEnd : UInt64) : Nat → Nat → UInt64 → List UInt64 × UInt64
  | 0, _, cursor => ([], cursor)
  | rounds + 1, budget, cursor =>
    if budget = 0 ∨ rangeEnd ≤ cursor then ([], cursor)
    else
      let next := if cursor + 4096 > rangeEnd then rangeEnd else cursor + 4096
      if frameIsUsed bits cursor then stepFrom bits rangeEnd rounds budget next
      else
        let (pages, last) := stepFrom bits rangeEnd rounds (budget - 1) next
        (cursor :: pages, last)

/-- The number of pages from the cursor to the end of the window, rounded up. -/
def Session.roundsLeft (s : Session) : Nat := (s.rangeEnd.toNat - s.cursor.toNat + 4095) / 4096

/-- How many pages a query of the status writes. -/
def Session.budget (s : Session) : Nat := if s.mode = memtestFull then 16 else 256

/-- `memtest_step`: the pages that are written, and the session. -/
def memtestStep (bits : Bits) (s : Session) : List UInt64 × Session :=
  if !s.running then ([], s)
  else if s.cancelled then ([], { s with running := false })
  else
    let (pages, cursor) := stepFrom bits s.rangeEnd s.roundsLeft s.budget s.cursor
    (pages, { s with cursor := cursor, running := decide (cursor < s.rangeEnd) })

def memtestCancel (s : Session) : Session := { s with cancelled := true }

/-- What a page holds after the test: the last of the patterns, or in the full mode the addresses.
-/
def patternBytes (mode page : UInt64) (n : Nat) : List UInt8 :=
  if mode = 0 then List.replicate n 0xFF
  else if mode = memtestQuick then List.replicate n 0xAA
  else (List.range n).map fun i => UInt8.ofNat ((page.toNat + i / 8 * 8) / 256 ^ (i % 8))

/-! ## The pages that a step writes -/

/-- The pages from an address on, up to the end of the window, that are not in use. -/
def freePages (bits : Bits) (rangeEnd : UInt64) (rounds : Nat) (cursor : UInt64) : List UInt64 :=
  ((List.range rounds).map fun i => cursor + UInt64.ofNat i * 4096).filter fun page =>
    decide (page < rangeEnd) && !frameIsUsed bits page

section

variable {bits : Bits} {rangeEnd cursor : UInt64} {rounds : Nat}

theorem freePages_succ : freePages bits rangeEnd (rounds + 1) cursor =
    (if decide (cursor < rangeEnd) && !frameIsUsed bits cursor then [cursor] else []) ++
      freePages bits rangeEnd rounds (cursor + 4096) := by
  have hzero : cursor + UInt64.ofNat 0 * 4096 = cursor := by
    rw [show UInt64.ofNat 0 = 0 from rfl, UInt64.zero_mul, UInt64.add_zero]
  have hsucc (i : Nat) : cursor + UInt64.ofNat (i + 1) * 4096 = cursor + 4096 + UInt64.ofNat i * 4096 := by
    rw [UInt64.ofNat_add, UInt64.add_mul, show UInt64.ofNat 1 = 1 from rfl, UInt64.one_mul,
      UInt64.add_assoc,
      UInt64.add_comm (UInt64.ofNat i * 4096)]
  unfold freePages
  rw [List.range_succ_eq_map, List.map_cons, List.map_map, hzero, List.filter_cons]
  have htail : ((fun i => cursor + UInt64.ofNat i * 4096) ∘ Nat.succ) =
      fun i => cursor + 4096 + UInt64.ofNat i * 4096 :=
    funext hsucc
  rw [htail]
  split
  · rfl
  · rfl

theorem freePages_of_le (h : rangeEnd ≤ cursor) (hrounds : cursor.toNat + rounds * 4096 < 2 ^ 64) :
    freePages bits rangeEnd rounds cursor = [] := by
  induction rounds generalizing cursor with
  | zero => rfl
  | succ rounds ih =>
    have hnext : (cursor + 4096).toNat = cursor.toNat + 4096 := by
      rw [UInt64.toNat_add, show (4096 : UInt64).toNat = 4096 from rfl]
      omega
    have hle : rangeEnd ≤ cursor + 4096 := by
      rw [UInt64.le_iff_toNat_le] at h ⊢
      omega
    rw [freePages_succ, ih hle (by omega), decide_eq_false (UInt64.not_lt.mpr h)]
    rfl

/-- A step writes the first pages that are not in use, as many as its budget allows. -/
theorem stepFrom_pages (budget : Nat) (hrounds : cursor.toNat + rounds * 4096 < 2 ^ 64) :
    (stepFrom bits rangeEnd rounds budget cursor).1 =
      (freePages bits rangeEnd rounds cursor).take budget := by
  induction rounds generalizing budget cursor with
  | zero => exact List.take_nil.symm
  | succ rounds ih =>
    have hnext : (cursor + 4096).toNat = cursor.toNat + 4096 := by
      rw [UInt64.toNat_add, show (4096 : UInt64).toNat = 4096 from rfl]
      omega
    unfold stepFrom
    split
    · next hstop =>
      rcases hstop with rfl | hstop
      · rfl
      · rw [freePages_of_le hstop hrounds, List.take_nil]
    · next hgo =>
      rw [not_or] at hgo
      have hlt : cursor < rangeEnd := UInt64.not_le.mp hgo.2
      -- behind the last page of the window both lists are empty
      have hrest (k : Nat) : (stepFrom bits rangeEnd rounds k
          (if cursor + 4096 > rangeEnd then rangeEnd else cursor + 4096)).1 =
          (freePages bits rangeEnd rounds (cursor + 4096)).take k := by
        split
        · next hover =>
          have hhigh : rangeEnd.toNat < cursor.toNat + 4096 := by
            rw [← hnext]
            exact UInt64.lt_iff_toNat_lt.mp hover
          rw [ih k (by omega), freePages_of_le (UInt64.le_refl _) (by omega),
            freePages_of_le (UInt64.le_of_lt hover) (by omega)]
        · exact ih k (by omega)
      dsimp only
      rw [freePages_succ, decide_eq_true hlt, Bool.true_and]
      cases frameIsUsed bits cursor with
      | true =>
        rw [if_pos rfl, hrest]
        rfl
      | false =>
        obtain ⟨k, rfl⟩ := Nat.exists_eq_succ_of_ne_zero hgo.1
        rw [if_neg (by decide)]
        change cursor :: (stepFrom bits rangeEnd rounds k _).1 = _
        rw [hrest]
        rfl

end

theorem memtestStep_pages (bits : Bits) (s : Session) : (memtestStep bits s).1 =
    if s.running && !s.cancelled then
      (freePages bits s.rangeEnd s.roundsLeft s.cursor).take s.budget else [] := by
  have hend : s.rangeEnd.toNat ≤ 0x09000000 := UInt64.le_iff_toNat_le.mp s.window
  have hcursor := s.cursor.toNat_lt
  have hrounds : s.cursor.toNat + s.roundsLeft * 4096 < 2 ^ 64 := by
    unfold Session.roundsLeft
    omega
  unfold memtestStep
  cases s.running with
  | false => rfl
  | true =>
    cases s.cancelled with
    | true => rfl
    | false => exact stepFrom_pages s.budget hrounds

end Monios.Model.Memtest
