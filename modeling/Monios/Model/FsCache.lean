import Mathlib.Data.List.FinRange
import Monios.Library.Traced

/-!
# The file cache

`lib/fs_cache.c`: blocks of 4096 bytes of files are kept in slots, full blocks are written back
later and parts of blocks at once.  What is behind the cache is a machine `σ`; the flushers, which
are numbered, and the loaders work on it and may do and return anything.  Every call of a flusher is
logged with its result.

Offsets and sizes have 32 bits in the source.  The calls refuse a range that does not fit into 32
bits, so that no sum below wraps.  The counters that only the status shows are left out.
-/

set_option autoImplicit false

namespace Monios.Model.FsCache

open Monios.Library

abbrev Path := List UInt8

def pathMax : Nat := 512

def blockSize : Nat := 4096

def defaultSlots : Nat := 512

/-- `fs_cache_slot_t`; the defaults are the values of a zeroed slot. -/
structure Slot where
  valid : Bool := false
  dirty : Bool := false
  flusher : Option Nat := none
  path : Path := []
  blockStart : Nat := 0
  dataSize : Nat := 0
  data : List UInt8 := List.replicate blockSize 0
  age : Nat := 0

structure FlusherCall where
  flusher : Nat
  path : Path
  offset : Nat
  data : List UInt8
  done : Int

/-- The globals of `fs_cache.c` as `fs_cache_init` sets them, and what is behind the cache. -/
structure Cache (σ : Type) where
  machine : σ
  slots : Fin defaultSlots → Slot := fun _ => {}
  enabled : Bool := true
  dirtyCount : Nat := 0
  configuredSlots : Nat := defaultSlots
  age : Nat := 1
  flusher : Option Nat := none

variable {σ : Type}

abbrev Flushers (σ : Type) := Nat → Path → Nat → List UInt8 → σ → Int × σ

abbrev Loader (σ : Type) := Path → Nat → Nat → σ → Int × List UInt8 × σ

abbrev Cached (σ α : Type) : Type := Traced (Cache σ) FlusherCall α

/-- A number of bytes as `int32_t`. -/
def int32 (n : Nat) : Int := Int.bmod n (2 ^ 32)

def pathIsCacheable (path : Path) : Bool := decide (path.length < pathMax)

def activeSlots (s : Cache σ) : Nat :=
  let n := if s.configuredSlots = 0 then defaultSlots else s.configuredSlots
  let n := if n > defaultSlots then defaultSlots else n
  if n < 16 then 16 else n

def activeList (s : Cache σ) : List (Fin defaultSlots) :=
  (List.finRange defaultSlots).filter fun i => i.val < activeSlots s

def Cache.setSlot (s : Cache σ) (i : Fin defaultSlots) (slot : Slot) : Cache σ :=
  { s with slots := Function.update s.slots i slot }

def find (path : Path) (blockStart : Nat) (s : Cache σ) : Option (Fin defaultSlots) :=
  (activeList s).find? fun i =>
    (s.slots i).valid && decide ((s.slots i).blockStart = blockStart) && decide ((s.slots i).path = path)

def callFlusher (fl : Flushers σ) (flusher : Nat) (path : Path) (offset : Nat)
    (data : List UInt8) : Cached σ Int := do
  let done ← Traced.reads fun s => (fl flusher path offset data s.machine).1
  Traced.modifies fun s => { s with machine := (fl flusher path offset data s.machine).2 }
  Traced.emit ⟨flusher, path, offset, data, done⟩
  pure done

def callLoader (loader : Loader σ) (path : Path) (offset size : Nat) :
    Cached σ (Int × List UInt8) := do
  let r ← Traced.reads fun s => loader path offset size s.machine
  Traced.modifies fun s => { s with machine := r.2.2 }
  pure (r.1, r.2.1)

def markFlushed (i : Fin defaultSlots) (s : Cache σ) : Cache σ :=
  { s.setSlot i { s.slots i with dirty := false } with
    dirtyCount := if s.dirtyCount > 0 then s.dirtyCount - 1 else 0 }

/-- `fs_cache_flush_slot`, which is always called without a flusher of its own. -/
def flushSlot (fl : Flushers σ) (i : Fin defaultSlots) : Cached σ Bool := do
  let s ← Traced.reads id
  match (s.slots i).flusher.or s.flusher with
  | none => pure false
  | some flusher => do
      let slot := s.slots i
      let done ← callFlusher fl flusher slot.path slot.blockStart (slot.data.take slot.dataSize)
      if done < 0 ∨ done ≠ slot.dataSize then pure false
      else do
        Traced.modifies (markFlushed i)
        pure true

def oldestSlot (s : Cache σ) : Fin defaultSlots :=
  (activeList s).foldl (fun oldest i => if (s.slots i).age < (s.slots oldest).age then i else oldest) ⟨0, by decide⟩

def chooseSlot (fl : Flushers σ) : Cached σ (Option (Fin defaultSlots)) := do
  let s ← Traced.reads id
  match (activeList s).find? fun i => !(s.slots i).valid with
  | some i => pure (some i)
  | none =>
    if (s.slots (oldestSlot s)).dirty then do
      let ok ← flushSlot fl (oldestSlot s)
      pure (if ok then some (oldestSlot s) else none)
    else pure (some (oldestSlot s))

def copyPath (path : Path) : Path × Bool :=
  (path.take (pathMax - 1), decide (path.length ≤ pathMax - 1))

/-- The next `g_age`. -/
def nextAge (s : Cache σ) : Nat := (s.age + 1) % 2 ^ 32

/-! ## Reading -/

/-- How the search for a block ends: with a slot, or with the result of the whole call. -/
inductive Fill
  | slot (i : Fin defaultSlots)
  | stop (result : Int) (bytes : List UInt8)

/-- `copied > 0 ? copied : r` -/
def copiedOr (bytes : List UInt8) (r : Int) : Int :=
  if bytes.length > 0 then int32 bytes.length else r

def loadedSlot (path : Path) (blockStart loaded : Nat) (data : List UInt8) (age : Nat) : Slot :=
  { valid := true, path := (copyPath path).1, blockStart := blockStart, dataSize := loaded,
    data := data ++ List.replicate (blockSize - data.length) 0, age := age }

/-- The part of `fs_cache_read_at` that finds or loads a block; `bytes` have been read so far. -/
def fillSlot (fl : Flushers σ) (loader : Loader σ) (path : Path) (blockStart current want : Nat)
    (bytes : List UInt8) :
    Cached σ Fill := do
  match ← Traced.reads (find path blockStart) with
  | some i => pure (.slot i)
  | none =>
    match ← chooseSlot fl with
    | none => pure (.stop (copiedOr bytes (-1)) bytes)
    | some i => do
        Traced.modifies fun s => s.setSlot i {}
        let loadSize := if blockStart > 0xFFFFFFFF - (blockSize - 1) then 0xFFFFFFFF - blockStart + 1 else blockSize
        let (loaded, data) ← callLoader loader path blockStart loadSize
        if loaded > loadSize then pure (.stop (-1) bytes)
        else if loaded ≤ 0 then pure (.stop (copiedOr bytes loaded) bytes)
        else do
          Traced.modifies fun s =>
            { s.setSlot i (loadedSlot path blockStart loaded.toNat (data.take loadSize) (nextAge s)) with age := nextAge s }
          if !(copyPath path).2 then do
            Traced.modifies fun s => s.setSlot i { s.slots i with valid := false }
            if bytes.length > 0 then pure (.stop (int32 bytes.length) bytes)
            else do
              let (r, direct) ← callLoader loader path current want
              pure (.stop r (direct.take r.toNat))
          else pure (.slot i)

def copyFromSlot (i : Fin defaultSlots) (offset size : Nat) : Cached σ (Option (List UInt8)) := do
  let slot ← Traced.reads fun s => s.slots i
  if offset < slot.blockStart then pure none
  else
    let inBlock := offset - slot.blockStart
    if inBlock ≥ slot.dataSize ∨ size > slot.dataSize - inBlock then pure none
    else do
      Traced.modifies fun s => { s.setSlot i { s.slots i with age := nextAge s } with age := nextAge s }
      pure (some ((slot.data.drop inBlock).take size))

/-- A round of the loop of `fs_cache_read_at`; `next` are the rounds after it, with the bytes read
so far. -/
def readRound (fl : Flushers σ) (loader : Loader σ) (path : Path) (offset size : Nat)
    (bytes : List UInt8) (next : List UInt8 → Cached σ (Int × List UInt8)) :
    Cached σ (Int × List UInt8) := do
  let current := offset + bytes.length
  let blockStart := current / blockSize * blockSize
  let blockOffset := current - blockStart
  let want := min (blockSize - blockOffset) (size - bytes.length)
  match ← fillSlot fl loader path blockStart current want bytes with
  | .stop result bytes => pure (result, bytes)
  | .slot i => do
      let slot ← Traced.reads fun s => s.slots i
      if blockOffset ≥ slot.dataSize then pure (int32 bytes.length, bytes)
      else
        let want := if blockOffset + want > slot.dataSize then slot.dataSize - blockOffset else want
        match ← copyFromSlot i current want with
        | some part => next (bytes ++ part)
        | none => do
            let (direct, data) ← callLoader loader path current want
            if direct ≤ 0 then pure (copiedOr bytes direct, bytes)
            else if direct.toNat < want then pure (int32 (bytes.length + direct.toNat), bytes ++ data.take direct.toNat)
            else next (bytes ++ data.take direct.toNat)

/-- The loop of `fs_cache_read_at`, with the bytes read so far; a round that goes on has read
something. -/
def readFrom (fl : Flushers σ) (loader : Loader σ) (path : Path) (offset size : Nat) :
    Nat → List UInt8 → Cached σ (Int × List UInt8)
  | 0, bytes => pure (int32 bytes.length, bytes)
  | rounds + 1, bytes =>
    if bytes.length ≥ size then pure (int32 bytes.length, bytes)
    else readRound fl loader path offset size bytes (readFrom fl loader path offset size rounds)

/-- `fs_cache_read_at`: the result, and the bytes in the buffer.  `buffer` says that there is one.
-/
def fsCacheReadAt (fl : Flushers σ) (path : Option Path) (offset : UInt32) (buffer : Bool)
    (size : UInt32) (loader : Option (Loader σ)) : Cached σ (Int × List UInt8) :=
  if size = 0 then pure (0, [])
  else
    match path, loader with
    | some path, some loader =>
      if !buffer then pure (-1, [])
      else if offset.toNat > 0xFFFFFFFF - (size.toNat - 1) then pure (-1, [])
      else do
        let enabled ← Traced.reads Cache.enabled
        if !enabled || !pathIsCacheable path then do
          let (r, data) ← callLoader loader path offset.toNat size.toNat
          pure (r, data.take r.toNat)
        else readFrom fl loader path offset.toNat size.toNat size.toNat []
    | _, _ => pure (-1, [])

/-! ## Writing -/

/-- The slot that `fs_cache_write_at` sets up for a block that is not cached. -/
def freshSlot (path : Path) (blockStart age : Nat) : Slot :=
  { valid := true, path := (copyPath path).1, blockStart := blockStart, dataSize := blockSize, age := age }

/-- `copied ? copied : -1` -/
def copiedOrFail (copied : Nat) : Int := if copied ≠ 0 then int32 copied else -1

def putBlock (flusher : Nat) (data : List UInt8) (i : Fin defaultSlots) (s : Cache σ) : Cache σ :=
  let slot := s.slots i
  { s.setSlot i { slot with
      data := data
      flusher := some flusher
      dataSize := if blockSize > slot.dataSize then blockSize else slot.dataSize
      dirty := true
      age := nextAge s } with
    dirtyCount := if slot.dirty then s.dirtyCount else (s.dirtyCount + 1) % 2 ^ 32
    age := nextAge s }

/-- The part of `fs_cache_write_at` that finds or sets up the slot of a full block: `none` says that
the call is over. -/
def slotForWrite (fl : Flushers σ) (path : Path) (blockStart flusher : Nat) :
    Cached σ (Option (Fin defaultSlots) × Bool) := do
  let s ← Traced.reads id
  match find path blockStart s with
  | some i =>
    if (s.slots i).dirty ∧ (s.slots i).flusher ≠ some flusher then do
      let ok ← flushSlot fl i
      pure (if ok then some i else none, true)
    else pure (some i, true)
  | none =>
    match ← chooseSlot fl with
    | none => pure (none, true)
    | some i => do
        Traced.modifies fun s => { s.setSlot i (freshSlot path blockStart (nextAge s)) with age := nextAge s }
        if !(copyPath path).2 then do
          Traced.modifies fun s => s.setSlot i { s.slots i with valid := false }
          pure (none, false)
        else pure (some i, true)

/-- What `fs_cache_write_at` does with a part of a block: older data goes to the flusher first, and
the slot is given up. The result is that of the flusher, `none` when the older data could not be
written. -/
def writePart (fl : Flushers σ) (path : Path) (blockStart current : Nat) (data : List UInt8)
    (flusher : Nat) :
    Cached σ (Option Int) := do
  let s ← Traced.reads id
  match find path blockStart s with
  | some i =>
    if (s.slots i).dirty then do
      let ok ← flushSlot fl i
      if !ok then pure none
      else do
        Traced.modifies fun s => s.setSlot i { s.slots i with valid := false }
        some <$> callFlusher fl flusher path current data
    else do
      Traced.modifies fun s => s.setSlot i { s.slots i with valid := false }
      some <$> callFlusher fl flusher path current data
  | none => some <$> callFlusher fl flusher path current data

/-- A round of the loop of `fs_cache_write_at`; `next` are the rounds after it, with the number of
bytes that have been written. -/
def writeRound (fl : Flushers σ) (path : Path) (offset : Nat) (data : List UInt8)
    (flusher copied : Nat) (next : Nat → Cached σ Int) : Cached σ Int := do
  let current := offset + copied
  let blockStart := current / blockSize * blockSize
  let blockOffset := current - blockStart
  let want := min (blockSize - blockOffset) (data.length - copied)
  let part := (data.drop copied).take want
  if blockOffset ≠ 0 ∨ want ≠ blockSize then do
    match ← writePart fl path blockStart current part flusher with
    | none => pure (copiedOrFail copied)
    | some done =>
      if done < 0 ∨ done > want then pure (copiedOrFail copied)
      else if done ≠ want then pure (int32 (copied + done.toNat))
      else next (copied + want)
  else do
    match ← slotForWrite fl path blockStart flusher with
    | (none, failed) => pure (if failed then copiedOrFail copied else int32 copied)
    | (some i, _) => do
        Traced.modifies (putBlock flusher part i)
        next (copied + want)

/-- The loop of `fs_cache_write_at`, with the number of bytes that have been written; a round that
goes on has written something. -/
def writeFrom (fl : Flushers σ) (path : Path) (offset : Nat) (data : List UInt8) (flusher : Nat) :
    Nat → Nat → Cached σ Int
  | 0, copied => pure (int32 copied)
  | rounds + 1, copied =>
    if copied ≥ data.length then pure (int32 copied)
    else writeRound fl path offset data flusher copied (writeFrom fl path offset data flusher rounds)

/-- `fs_cache_write_at`; the buffer holds the bytes `data`, `none` if there is no buffer.  The size
is that of the data. -/
def fsCacheWriteAt (fl : Flushers σ) (path : Option Path) (offset : UInt32)
    (data : Option (List UInt8)) (flusher : Option Nat) : Cached σ Int :=
  if data = some [] then pure 0
  else
    match path, data with
    | some path, some data =>
      if offset.toNat > 0xFFFFFFFF - (data.length - 1) then pure (-1)
      else do
        let s ← Traced.reads id
        match flusher.or s.flusher with
        | none => pure (-1)
        | some flusher =>
          if !s.enabled || !pathIsCacheable path then callFlusher fl flusher path offset.toNat data
          else writeFrom fl path offset.toNat data flusher data.length 0
    | _, _ => pure (-1)

/-! ## Control -/

/-- The loop of `fs_cache_flush`. -/
def flushAll (fl : Flushers σ) : List (Fin defaultSlots) → Nat → Cached σ Nat
  | [], flushed => pure flushed
  | i :: is, flushed => do
      let slot ← Traced.reads fun s => s.slots i
      if slot.valid ∧ slot.dirty then do
        let ok ← flushSlot fl i
        flushAll fl is (if ok then flushed + 1 else flushed)
      else flushAll fl is flushed

def fsCacheFlush (fl : Flushers σ) : Cached σ Nat := do
  let is ← Traced.reads activeList
  flushAll fl is 0

/-- The loop of `fs_cache_invalidate_path`; without a path, all slots are given up. -/
def invalidateAll (fl : Flushers σ) (path : Option Path) : List (Fin defaultSlots) → Cached σ Unit
  | [] => pure ()
  | i :: is => do
      let slot ← Traced.reads fun s => s.slots i
      if slot.valid ∧ (path = none ∨ path = some slot.path) then do
        let ok ← (if slot.dirty then flushSlot fl i else pure true)
        if ok then do
          Traced.modifies fun s => s.setSlot i { s.slots i with valid := false, dirty := false }
          invalidateAll fl path is
        else invalidateAll fl path is
      else invalidateAll fl path is

def fsCacheInvalidatePath (fl : Flushers σ) (path : Option Path) : Cached σ Unit := do
  let is ← Traced.reads activeList
  invalidateAll fl path is

/-- What several commands begin with: everything is written back and given up, unless something
stays dirty. -/
def drain (fl : Flushers σ) : Cached σ Bool := do
  let _ ← fsCacheFlush fl
  let dirty ← Traced.reads Cache.dirtyCount
  if dirty ≠ 0 then pure false
  else do
    fsCacheInvalidatePath fl none
    pure true

/-- `fs_cache_ctl`; the commands are `FS_CACHE_CTL_STATUS` to `FS_CACHE_CTL_DROP`. -/
def fsCacheCtl (fl : Flushers σ) (cmd arg1 : UInt64) : Cached σ UInt64 :=
  if cmd = 0 then pure 0
  else if cmd = 1 then do
    let flushed ← fsCacheFlush fl
    pure (UInt64.ofNat flushed)
  else if cmd = 2 then do
    let ok ← (if arg1 = 0 then drain fl else pure true)
    if !ok then pure (-1)
    else do
      Traced.modifies fun s => { s with enabled := decide (arg1 ≠ 0) }
      pure 0
  else if cmd = 3 then do
    let want := arg1.toUInt32.toNat
    let want := if want < 16 then 16 else want
    let want := if want > defaultSlots then defaultSlots else want
    let active ← Traced.reads activeSlots
    let ok ← (if want < active then drain fl else pure true)
    if !ok then pure (-1)
    else do
      Traced.modifies fun s => { s with configuredSlots := want }
      pure (UInt64.ofNat want)
  else if cmd = 4 then do
    let ok ← drain fl
    pure (if ok then 0 else -1)
  else pure (-1)

def fsCacheSetFlusher (flusher : Option Nat) : Cached σ Unit :=
  Traced.modifies fun s => { s with flusher := flusher }

def fsCacheInit (machine : σ) : Cache σ := { machine := machine }

/-! ## Calls -/

/-- The bytes of a buffer; their number is an `uint32_t`. -/
abbrev Buffer := { data : List UInt8 // data.length < 2 ^ 32 }

abbrev Loaders (σ : Type) := Nat → Loader σ

inductive Action
  | readAt (path : Option Path) (offset : UInt32) (buffer : Bool) (size : UInt32) (loader : Option Nat)
  | writeAt (path : Option Path) (offset : UInt32) (data : Option Buffer) (flusher : Option Nat)
  | flush
  | invalidatePath (path : Option Path)
  | ctl (cmd arg1 : UInt64)
  | setFlusher (flusher : Option Nat)

def perform (fl : Flushers σ) (ld : Loaders σ) : Action → Cached σ (Int × List UInt8)
  | .readAt path offset buffer size loader => fsCacheReadAt fl path offset buffer size
    (loader.map ld)
  | .writeAt path offset data flusher => do
      let r ← fsCacheWriteAt fl path offset (data.map Subtype.val) flusher
      pure (r, [])
  | .flush => do
      let flushed ← fsCacheFlush fl
      pure ((flushed : Int), [])
  | .invalidatePath path => do
      fsCacheInvalidatePath fl path
      pure (0, [])
  | .ctl cmd arg1 => do
      let r ← fsCacheCtl fl cmd arg1
      pure ((r.toNat : Int), [])
  | .setFlusher flusher => do
      fsCacheSetFlusher flusher
      pure (0, [])

end Monios.Model.FsCache
