import Mathlib.Algebra.Order.Ring.Int

/-!
# The physical frame pool

The allocator of `kernel/mm/frame.c` for runs of any length and alignment, over the bitmap of
`kernel/mm/bitmap.c`. (`Monios.Model.Vm` has the pool as the page tables use it, one frame at a
time.)  Numbers of frames are 32-bit words in the source and natural numbers here, with the wrapping
sums of the source written out.

The counters of requests and the fields that remember the last call are left out: nothing reads them
but the status calls.
-/

set_option autoImplicit false

namespace Monios.Model.Frame

/-! ## The bitmap -/

def frameTotalCount : Nat := 16384

/-- The bits of `g_frame_bitmap`; those from `frameTotalCount` on do not exist. -/
abbrev Bits := Nat → Bool

def bitmapTest (bits : Bits) (index : Nat) : Bool := decide (index < frameTotalCount) && bits index

/-- `bitmap_set` and `bitmap_clear`, which fail on a bit that does not exist or has the value
already. -/
def bitmapWrite (value : Bool) (bits : Bits) (index : Nat) : Option Bits :=
  if index ≥ frameTotalCount ∨ bits index = value then none else some (Function.update bits index value)

/-- The inner loop of `bitmap_find_run_zero`: the first bit of the run that is set. -/
def firstSetBit (bits : Bits) (index runLength : Nat) : Option Nat :=
  (List.range runLength).find? fun bit => bitmapTest bits ((index + bit) % 2 ^ 32)

/-- The outer loop of `bitmap_find_run_zero`.  `none` says that it is not over after so many rounds,
`some none` is the result `-1`. -/
def findRunZeroFrom (bits : Bits) (runLength align : Nat) : Nat → Nat → Option (Option Nat)
  | 0, _ => none
  | rounds + 1, index =>
    if (index + runLength) % 2 ^ 32 ≤ frameTotalCount then
      if index % align ≠ 0 then findRunZeroFrom bits runLength align rounds ((index + 1) % 2 ^ 32)
      else
        match firstSetBit bits index runLength with
        | some bit => findRunZeroFrom bits runLength align rounds ((index + bit + 1) % 2 ^ 32)
        | none => some (some index)
    else some none

/-- `bitmap_find_run_zero`.  The next round depends on the index only, which has 32 bits: a loop
that is not over after `2 ^ 32` rounds never is. -/
def bitmapFindRunZero (bits : Bits) (startIndex runLength alignBits : Nat) : Option (Option Nat) :=
  let align := if alignBits = 0 then 1 else alignBits
  if runLength = 0 ∨ startIndex ≥ frameTotalCount then some none
  else findRunZeroFrom bits runLength align (2 ^ 32) startIndex

/-! ## The pool -/

/-- The globals of `frame.c`; the defaults are what `frame_init` sets. -/
structure Frames where
  bits : Bits := fun _ => false
  /-- `g_frame_info.used_frames` -/
  used : Nat := 0
  /-- `g_frame_info.reserved_frames` -/
  reserved : Nat := 0
  cursor : Nat := 0

def frameBasePhys : UInt64 := 0x01000000

def frameRangeValid (index count : Nat) : Bool :=
  decide (count > 0 ∧ index < frameTotalCount ∧ (index + count) % 2 ^ 32 ≤ frameTotalCount)

def frameIndexFromBase (base : UInt64) : Option Nat :=
  if base < frameBasePhys ∨ (base - frameBasePhys) % 4096 ≠ 0 then none
  else
    let offset := (base - frameBasePhys) / 4096
    if offset.toNat ≥ frameTotalCount then none else some offset.toNat

def frameIsUsed (bits : Bits) (phys : UInt64) : Bool :=
  match frameIndexFromBase phys with
  | none => false
  | some index => bitmapTest bits index

/-- The rollback loops of `frame_mark_range`. -/
def rollback (allocate : Bool) (start count : Nat) (bits : Bits) : Bits :=
  (List.range count).foldl (fun bits r => (bitmapWrite (!allocate) bits ((start + r) % 2 ^ 32)).getD bits) bits

/-- The loop of `frame_mark_range`, with `left` frames to go. -/
def markFrom (allocate : Bool) (start : Nat) : Nat → Nat → Bits → Bool × Bits
  | 0, _, bits => (true, bits)
  | left + 1, index, bits =>
    match bitmapWrite allocate bits ((start + index) % 2 ^ 32) with
    | some bits => markFrom allocate start left (index + 1) bits
    | none => (false, rollback allocate start index bits)

def frameMarkRange (start count : Nat) (allocate : Bool) (bits : Bits) : Bool × Bits :=
  if frameRangeValid start count then markFrom allocate start count 0 bits else (false, bits)

/-- The search of `frame_alloc_aligned`: from the cursor, and else from the start. -/
def findFrames (s : Frames) (count align : Nat) : Option (Option Nat) :=
  match bitmapFindRunZero s.bits s.cursor count align with
  | some none => bitmapFindRunZero s.bits 0 count align
  | found => found

/-- `frame_alloc_aligned`; `none` says that it does not return. -/
def frameAllocAligned (count align : UInt32) (s : Frames) : Option (UInt64 × Frames) :=
  if count = 0 then some (0, s)
  else
    match findFrames s count.toNat align.toNat with
    | none => none
    | some none => some (0, s)
    | some (some start) =>
      match frameMarkRange start count.toNat true s.bits with
      | (false, bits) => some (0, { s with bits := bits })
      | (true, bits) =>
        let next := (start + count.toNat) % 2 ^ 32
        some (frameBasePhys + UInt64.ofNat start * 4096,
          { s with bits := bits, used := (s.used + count.toNat) % 2 ^ 32,
                   cursor := if next ≥ frameTotalCount then 0 else next })

def frameFree (base : UInt64) (count : UInt32) (s : Frames) : Bool × Frames :=
  match frameIndexFromBase base with
  | none => (false, s)
  | some start =>
    match frameMarkRange start count.toNat false s.bits with
    | (false, bits) => (false, { s with bits := bits })
    | (true, bits) =>
      (true, { s with bits := bits, used := if s.used ≥ count.toNat then s.used - count.toNat else 0 })

def frameReserve (base : UInt64) (count : UInt32) (s : Frames) : Bool × Frames :=
  match frameIndexFromBase base with
  | none => (false, s)
  | some start =>
    match frameMarkRange start count.toNat true s.bits with
    | (false, bits) => (false, { s with bits := bits })
    | (true, bits) =>
      (true, { s with bits := bits, used := (s.used + count.toNat) % 2 ^ 32,
                      reserved := (s.reserved + count.toNat) % 2 ^ 32 })

/-! ## Runs -/

inductive Call
  | alloc (count align : UInt32)
  | free (base : UInt64) (count : UInt32)
  | reserve (base : UInt64) (count : UInt32)

/-- The pool after a call; `none` says that the call does not return. -/
def step (s : Frames) : Call → Option Frames
  | .alloc count align => (frameAllocAligned count align s).map Prod.snd
  | .free base count => some (frameFree base count s).2
  | .reserve base count => some (frameReserve base count s).2

end Monios.Model.Frame
