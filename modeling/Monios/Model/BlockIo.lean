import Mathlib.Data.List.FinRange
import Monios.Library.Traced

/-!
# Block devices and the I/O scheduler

The transfers of `drivers/storage/blockdev.c` and the request queue of `kernel/sched/iosched.c` that
is hooked in front of them.  The routines of the drivers are parameters: each works on the state `σ`
of the machine (its disks, its memory and whatever decides whether a transfer fails) and says
whether it succeeded.  Every call of a routine is logged.

The counters and the status texts of the scheduler are left out: nothing reads them but its status
call.
-/

set_option autoImplicit false

namespace Monios.Model

open Monios.Library

/-! ## Devices -/

/-- The part of `blockdev_t` that a transfer reads.  A routine that is `NULL` is `none`. -/
structure BlockDev (σ : Type) where
  sectorSize : UInt32
  maxTransferSectors : UInt32
  readSector : Option (UInt64 → UInt64 → σ → Bool × σ)
  readSectors : Option (UInt64 → UInt32 → UInt64 → σ → Bool × σ)
  writeSector : Option (UInt64 → UInt64 → σ → Bool × σ)
  writeSectors : Option (UInt64 → UInt32 → UInt64 → σ → Bool × σ)

/-- A call of a routine of a driver: the first sector, how many there are, and where in memory they
go to or come from. -/
structure DriverCall where
  dev : Int
  write : Bool
  lba : UInt64
  count : UInt32
  ptr : UInt64
  deriving DecidableEq

/-- `iosched_req_t` -/
structure IoRequest where
  used : Bool := false
  dev : Int := 0
  lba : UInt64 := 0
  count : UInt32 := 0
  buffer : UInt64 := 0
  write : Bool := false

structure BlockIo (σ : Type) where
  machine : σ
  queue : Fin 64 → IoRequest := fun _ => {}
  algorithm : UInt32 := 1
  lastLba : UInt64 := 0
  /-- `g_iosched_hook` is not `NULL` -/
  hooked : Bool := false

variable {σ : Type}

abbrev Io (σ α : Type) : Type := Traced (BlockIo σ) DriverCall α

def callDriver (c : DriverCall) (routine : σ → Bool × σ) : Io σ Bool := do
  Traced.emit c
  let ok ← Traced.reads fun s => (routine s.machine).1
  Traced.modifies fun s => { s with machine := (routine s.machine).2 }
  pure ok

/-- The loop over single sectors, from the `i`-th on. -/
def dispatchSingles (dev : Int) (write : Bool) (routine : UInt64 → UInt64 → σ → Bool × σ)
    (sectorSize : UInt32) (lba ptr : UInt64) : Nat → UInt32 → Io σ Bool
  | 0, _ => pure true
  | left + 1, i => do
      let lba' := lba + i.toUInt64
      let ptr' := ptr + i.toUInt64 * sectorSize.toUInt64
      let ok ← callDriver ⟨dev, write, lba', 1, ptr'⟩ (routine lba' ptr')
      if ok then dispatchSingles dev write routine sectorSize lba ptr left (i + 1) else pure false

/-- What `blockdev_dispatch_sectors` does with one piece of a transfer. -/
def dispatchChunk (dev : Int) (d : BlockDev σ) (write : Bool) (lba : UInt64) (count : UInt32)
    (ptr : UInt64) : Io σ Bool :=
  match (if write then d.writeSectors else d.readSectors), (if write then d.writeSector else d.readSector) with
  | some routine, _ => callDriver ⟨dev, write, lba, count, ptr⟩ (routine lba count ptr)
  | none, some routine => dispatchSingles dev write routine d.sectorSize lba ptr count.toNat 0
  | none, none => pure false

/-- The loop of `blockdev_dispatch_sectors`; a round moves at least one sector. -/
def dispatchFrom (dev : Int) (d : BlockDev σ) (lba : UInt64) (count maxChunk : UInt32)
    (buffer : UInt64) (write : Bool) :
    Nat → UInt32 → Io σ Bool
  | 0, _ => pure true
  | rounds + 1, done =>
    if count ≤ done then pure true
    else do
      let ptr := buffer + done.toUInt64 * d.sectorSize.toUInt64
      let chunk := if count - done > maxChunk then maxChunk else count - done
      let ok ← dispatchChunk dev d write (lba + done.toUInt64) chunk ptr
      if ok then dispatchFrom dev d lba count maxChunk buffer write rounds (done + chunk) else pure false

def blockdevDispatchSectors (dev : Int) (d : BlockDev σ) (lba : UInt64) (count : UInt32)
    (buffer : UInt64) (write : Bool) :
    Io σ Bool :=
  let maxChunk := if d.maxTransferSectors ≠ 0 then d.maxTransferSectors else count
  dispatchFrom dev d lba count maxChunk buffer write count.toNat 0

def blockdevGet (devs : List (BlockDev σ)) (index : Int) : Option (BlockDev σ) :=
  if index < 0 then none else devs[index.toNat]?

/-- `blockdev_raw_read_sectors` and `blockdev_raw_write_sectors` -/
def blockdevRawSectors (devs : List (BlockDev σ)) (write : Bool) (dev : Int) (lba : UInt64)
    (count : UInt32) (buffer : UInt64) : Io σ Bool :=
  if buffer = 0 ∨ count = 0 then pure false
  else
    match blockdevGet devs dev with
    | none => pure false
    | some d => blockdevDispatchSectors dev d lba count buffer write

/-! ## The scheduler -/

def BlockIo.setRequest (s : BlockIo σ) (i : Fin 64) (r : IoRequest) : BlockIo σ :=
  { s with queue := Function.update s.queue i r }

def ioschedAllocSlot (s : BlockIo σ) : Option (Fin 64) :=
  (List.finRange 64).find? fun i => !(s.queue i).used

/-- What an entry becomes when `iosched_try_merge` merges a request with it. -/
def ioschedMergeWith (e req : IoRequest) : Option IoRequest :=
  if !e.used ∨ e.dev ≠ req.dev ∨ e.write ≠ req.write then none
  else if e.lba + e.count.toUInt64 = req.lba ∧ e.buffer + e.count.toUInt64 * 512 = req.buffer then
    some { e with count := e.count + req.count }
  else if req.lba + req.count.toUInt64 = e.lba ∧ req.buffer + req.count.toUInt64 * 512 = e.buffer then
    some { e with lba := req.lba, count := e.count + req.count, buffer := req.buffer }
  else none

/-- `iosched_try_merge`: the entry that takes the request up, and what it becomes. -/
def ioschedTryMerge (s : BlockIo σ) (req : IoRequest) : Option (Fin 64 × IoRequest) :=
  (List.finRange 64).findSome? fun i => (ioschedMergeWith (s.queue i) req).map fun e => (i, e)

/-- Whether `iosched_pick_next` prefers an entry to the best one so far. -/
def ioschedPrefers (algorithm : UInt32) (lastLba : UInt64) (best e : IoRequest) : Bool :=
  if algorithm = 1 then
    if e.lba ≥ lastLba ∧ (¬ best.lba ≥ lastLba ∨ e.lba < best.lba) then true
    else decide (¬ e.lba ≥ lastLba ∧ ¬ best.lba ≥ lastLba ∧ e.lba < best.lba)
  else if algorithm = 2 then
    if e.write ≠ best.write then !e.write else decide (e.lba < best.lba)
  else false

/-- A round of `iosched_pick_next`. -/
def ioschedPickRound (s : BlockIo σ) (best : Option (Fin 64)) (i : Fin 64) : Option (Fin 64) :=
  if !(s.queue i).used then best
  else
    match best with
    | none => some i
    | some b =>
      if ioschedPrefers s.algorithm s.lastLba (s.queue b) (s.queue i) then some i else some b

def ioschedPickNext (s : BlockIo σ) : Option (Fin 64) :=
  (List.finRange 64).foldl (ioschedPickRound s) none

def ioschedIssue (devs : List (BlockDev σ)) (req : IoRequest) : Io σ Bool := do
  let ok ← blockdevRawSectors devs req.write req.dev req.lba req.count req.buffer
  Traced.modifies fun s => { s with lastLba := req.lba }
  pure ok

/-- The loop of `iosched_run`.  A round takes an entry out of the queue, so that there are at most
64. -/
def ioschedRunFrom (devs : List (BlockDev σ)) : Nat → UInt32 → Io σ UInt32
  | 0, dispatched => pure dispatched
  | rounds + 1, dispatched => do
      let s ← Traced.reads id
      match ioschedPickNext s with
      | none => pure dispatched
      | some i => do
          -- a failure is counted, and not passed on
          let _ ← ioschedIssue devs (s.queue i)
          Traced.modifies fun s => s.setRequest i { s.queue i with used := false }
          ioschedRunFrom devs rounds (dispatched + 1)

def ioschedRun (devs : List (BlockDev σ)) : Io σ UInt32 := ioschedRunFrom devs 64 0

def ioschedEnqueueHook (devs : List (BlockDev σ)) (write : Bool) (dev : Int) (lba : UInt64)
    (count : UInt32) (buffer : UInt64) : Io σ Bool :=
  if count = 0 ∨ buffer = 0 then pure false
  else do
    let s ← Traced.reads id
    match ioschedAllocSlot s with
    | none => blockdevRawSectors devs write dev lba count buffer
    | some i => do
        let req : IoRequest := ⟨true, dev, lba, count, buffer, write⟩
        Traced.modifies fun s => s.setRequest i req
        Traced.modifies fun s =>
          match ioschedTryMerge s req with
          | some (j, e) => (s.setRequest j e).setRequest i { req with used := false }
          | none => s
        let _ ← ioschedRun devs
        pure true

/-- `blockdev_read_sectors` and `blockdev_write_sectors` -/
def blockdevSectors (devs : List (BlockDev σ)) (write : Bool) (dev : Int) (lba : UInt64)
    (count : UInt32) (buffer : UInt64) : Io σ Bool := do
  let hooked ← Traced.reads BlockIo.hooked
  if hooked then ioschedEnqueueHook devs write dev lba count buffer
  else blockdevRawSectors devs write dev lba count buffer

def ioschedInit (machine : σ) : BlockIo σ := { machine := machine, hooked := true }

def ioschedSetAlgorithm (algo : UInt32) : Io σ Unit :=
  Traced.modifies fun s => { s with algorithm := if algo > 2 then 1 else algo }

/-! ## Runs -/

inductive BlockIoAction
  | transfer (write : Bool) (dev : Int) (lba : UInt64) (count : UInt32) (buffer : UInt64)
  | setAlgorithm (algo : UInt32)
  | run

def blockIoStep (devs : List (BlockDev σ)) (s : BlockIo σ) : BlockIoAction → Option (BlockIo σ)
  | .transfer write dev lba count buffer => some
    ((blockdevSectors devs write dev lba count buffer).state s)
  | .setAlgorithm algo => some ((ioschedSetAlgorithm algo).state s)
  | .run => some ((ioschedRun devs).state s)

end Monios.Model
