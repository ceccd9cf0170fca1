import Mathlib.Data.List.FinRange
import Monios.Model.Frame
import Monios.Model.Vm

/-!
# Shared memory

`kernel/ipc/shm.c` over the page tables of `vm.c`.  A segment is a run of frames; `shm_attach` maps
it into the address space of the calling process with `vm_map_page`, at a place that depends on the
slot only.

The pool of the page tables is the one of `frame.c`; its counters are left out.  A call of
`shm_create` that is `none` does not return, which is what a search of `frame_alloc_aligned` without
an end would be.
-/

set_option autoImplicit false

namespace Monios.Model

/-- `SHM_MAX_SEGS` -/
abbrev ShmSlot := Fin 16

def shmMaxSize : Nat := 0x200000

def shmPageSize : Nat := 4096

def shmVbase : Nat := 0x08000000

def shmMapFlags : PageFlags := { present := true, writable := true, user := true, cow := true }

/-- `shm_entry_t` -/
structure ShmEntry where
  used : Bool := false
  doomed : Bool := false
  key : UInt32 := 0
  size : UInt32 := 0
  pages : UInt32 := 0
  physBase : UInt64 := 0
  attachCount : UInt32 := 0
  deriving DecidableEq

/-- `g_shm` with the memory manager. -/
structure Shm where
  vm : Vm
  segments : ShmSlot → ShmEntry := fun _ => {}

def Shm.set (s : Shm) (k : ShmSlot) (e : ShmEntry) : Shm :=
  { s with segments := Function.update s.segments k e }

/-! ## Frames -/

/-- The pool, as `frame.c` has it. -/
def Vm.pool (s : Vm) : Frame.Frames := { bits := s.frames.used, cursor := s.frames.cursor }

def Vm.withPool (s : Vm) (f : Frame.Frames) : Vm :=
  { s with frames := { used := f.bits, cursor := f.cursor } }

def Vm.frameAllocAligned (s : Vm) (count align : UInt32) : Option (UInt64 × Vm) :=
  (Frame.frameAllocAligned count align s.pool).map fun r => (r.1, s.withPool r.2)

/-- `frame_free` of a run -/
def Vm.frameFreeRun (s : Vm) (base : UInt64) (count : UInt32) : Vm :=
  s.withPool (Frame.frameFree base count s.pool).2

/-- `memset` of whole pages -/
def Vm.zeroPages (s : Vm) (page count : Nat) : Vm :=
  { s with mem := fun p => if page ≤ p ∧ p < page + count then fun _ => {} else s.mem p }

def ShmEntry.frame (e : ShmEntry) : Nat := (e.physBase / 4096).toNat

/-! ## The table -/

def shmFindByKey (s : Shm) (key : UInt32) : Option ShmSlot :=
  (List.finRange 16).find? fun k => (s.segments k).used && (s.segments k).key == key && !(s.segments k).doomed

def shmSlot (shmid : Int) : Option ShmSlot :=
  (List.finRange 16).find? fun k => decide (((k : Nat) : Int) = shmid - 1)

def shmById (s : Shm) (shmid : Int) : Option ShmSlot :=
  (shmSlot shmid).filter fun k => (s.segments k).used

/-! ## The calls -/

/-- `shm_create`: the identifier, or -1. -/
def shmCreate (s : Shm) (key size : UInt32) : Option (Int × Shm) :=
  match shmFindByKey s key with
  | some k => some (((k : Nat) : Int) + 1, s)
  | none =>
    if size = 0 ∨ size.toNat > shmMaxSize then some (-1, s)
    else
      let pages := (size + 4096 - 1) / 4096
      match (List.finRange 16).find? fun k => !(s.segments k).used with
      | none => some (-1, s)
      | some k =>
        match s.vm.frameAllocAligned pages 1 with
        | none => none
        | some (base, vm) =>
          if base = 0 then some (-1, { s with vm := vm }.set k { s.segments k with physBase := 0 })
          else
            some (((k : Nat) : Int) + 1,
              { s with vm := vm.zeroPages (base / 4096).toNat pages.toNat }.set k
                { used := true, doomed := false, key := key, size := pages * 4096, pages := pages, physBase := base,
                  attachCount := 0 })

/-- The loop of `shm_attach`, with `left` pages to go. -/
def shmMapPages (i vbase frame : Nat) : Nat → Nat → Vm → Bool × Vm
  | 0, _, s => (true, s)
  | left + 1, n, s =>
    match vmMapPage s i (vbase + n * shmPageSize) (frame + n) shmMapFlags with
    | (true, s) => shmMapPages i vbase frame left (n + 1) s
    | (false, s) => (false, s)

/-- `shm_attach` by the process whose address space is `current`: the address, or 0. -/
def shmAttach (s : Shm) (current : Option Nat) (shmid : Int) : Nat × Shm :=
  match shmById s shmid, current with
  | some k, some i =>
    if !(s.vm.spaces i).active then (0, s)
    else
      let e := s.segments k
      let vbase := shmVbase + (k : Nat) * shmMaxSize
      match shmMapPages i vbase e.frame e.pages.toNat 0 s.vm with
      | (true, vm) => (vbase, { s with vm := vm }.set k { e with attachCount := e.attachCount + 1 })
      | (false, vm) => (0, { s with vm := vm })
  | _, _ => (0, s)

def shmSlotOf (addr : UInt64) : Option ShmSlot :=
  if addr.toNat < shmVbase then none
  else (List.finRange 16).find? fun k => decide ((k : Nat) = (addr.toNat - shmVbase) / shmMaxSize % 2 ^ 32)

/-- The end of `shm_detach` and `shm_destroy`: a doomed segment without attachments is given back.
-/
def shmRelease (s : Shm) (k : ShmSlot) : Shm :=
  let e := s.segments k
  if e.doomed = true ∧ e.attachCount = 0 then
    { s with vm := s.vm.frameFreeRun e.physBase e.pages }.set k { e with physBase := 0, used := false }
  else s

def shmDetach (s : Shm) (addr : UInt64) : Int × Shm :=
  match (shmSlotOf addr).filter fun k => (s.segments k).used with
  | none => (-1, s)
  | some k =>
    let e := s.segments k
    let count := if 0 < e.attachCount then e.attachCount - 1 else e.attachCount
    (0, shmRelease (s.set k { e with attachCount := count }) k)

def shmDestroy (s : Shm) (shmid : Int) : Int × Shm :=
  match shmById s shmid with
  | none => (-1, s)
  | some k => (0, shmRelease (s.set k { s.segments k with doomed := true }) k)

/-! ## Runs -/

inductive ShmCall
  | create (key size : UInt32)
  | attach (shmid : Int)
  | detach (addr : UInt64)
  | destroy (shmid : Int)

/-- A call by the process whose address space is `current`; `none` says that it does not return. -/
def shmStep (s : Shm) (c : Option Nat × ShmCall) : Option Shm :=
  match c.2 with
  | .create key size => (shmCreate s key size).map Prod.snd
  | .attach shmid => some (shmAttach s c.1 shmid).2
  | .detach addr => some (shmDetach s addr).2
  | .destroy shmid => some (shmDestroy s shmid).2

end Monios.Model
