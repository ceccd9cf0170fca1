import Monios.Model.ProcTable
import Monios.Library.Block

/-!
# Pipes and descriptors

The descriptors of a process (`pcb_fd_*` of `kernel/sched/pcb.c`) and the pipes of
`kernel/ipc/pipe.c` that they name: making a pipe and closing an end of it.  A descriptor of a pipe
holds a number made from the slot of the pipe and the end, and the pipe counts how many descriptors
there are for each end.

Left out is what goes through a pipe: `pipe_read` and `pipe_write` touch neither the descriptors nor
the counters.
-/

set_option autoImplicit false

namespace Monios.Model.Pipe

open Monios.Model.ProcTable

/-! ## Descriptors -/

/-- `pcb_fd_alloc`: the first descriptor from 3 on that is unused. -/
def pcbFdAlloc (p : Pcb) : Option Nat × Pcb :=
  match (List.range' 3 61).find? fun i => decide (p.fdTable[i]? = some (-1)) with
  | some i => (some i, { p with fdTable := p.fdTable.set i (-2) })
  | none => (none, p)

def pcbFdFree (p : Pcb) (fd : Int) : Pcb :=
  if fd < 0 ∨ fd ≥ 64 then p
  else
    let mask : UInt8 := ~~~(1 <<< UInt8.ofNat (fd.toNat % 8))
    { p with fdTable := p.fdTable.set fd.toNat (-1), fdCloexec := p.fdCloexec.modify (fd.toNat / 8) (· &&& mask) }

def pcbFdGetHandle (p : Pcb) (fd : Int) : Int :=
  if fd < 0 ∨ fd ≥ 64 then -1 else p.fdTable.getD fd.toNat (-1)

def pcbFdSet (p : Pcb) (fd handle : Int) : Pcb :=
  if fd < 0 ∨ fd ≥ 64 then p else { p with fdTable := p.fdTable.set fd.toNat handle }

/-! ## Pipes -/

/-- `pipe_entry_t`; of the buffer only whether there is one. -/
structure PipeEntry where
  used : Bool := false
  buffer : Bool := false
  head : Nat := 0
  tail : Nat := 0
  count : Nat := 0
  readRefs : Nat := 0
  writeRefs : Nat := 0

/-- The process table, and `g_pipes` as `pipe_init` leaves it. -/
structure State where
  table : Table := pcbInit
  pipes : Fin 16 → PipeEntry := fun _ => {}

def pipeHandleBase : Int := 10000

/-- `pipe_decode_handle`: the slot, and whether it is the write end. -/
def pipeDecodeHandle (handle : Int) : Option (Fin 16 × Bool) :=
  if handle < pipeHandleBase then none
  else
    let adjusted := (handle - pipeHandleBase).toNat
    if h : adjusted / 2 < 16 then some (⟨adjusted / 2, h⟩, decide (adjusted % 2 = 1)) else none

def pipeFreeIfIdle (pipe : PipeEntry) : PipeEntry :=
  if pipe.readRefs = 0 ∧ pipe.writeRefs = 0 then
    { pipe with buffer := false, used := false, head := 0, tail := 0, count := 0 }
  else pipe

def State.setPipe (s : State) (i : Fin 16) (pipe : PipeEntry) : State :=
  { s with pipes := Function.update s.pipes i pipe }

def State.setPcb (s : State) (i : Fin 64) (p : Pcb) : State :=
  { s with table := s.table.setPcb i p }

/-- `pipe_create`.  `outOk` says whether there is room for the two results, `bufferOk` whether
`kmalloc` succeeds. -/
def pipeCreate (outOk bufferOk : Bool) (s : State) : Option (Nat × Nat) × State :=
  match ProcTable.pcbGetCurrent s.table with
  | none => (none, s)
  | some cur =>
    if !outOk then (none, s)
    else
      match (List.finRange 16).find? fun i => !(s.pipes i).used with
      | none => (none, s)
      | some slot =>
        let closed := s.setPipe slot { s.pipes slot with buffer := false }
        if !bufferOk then (none, closed)
        else
          let (rfd, p) := pcbFdAlloc (s.table.pcbs cur)
          let (wfd, p) := pcbFdAlloc p
          match rfd, wfd with
          | some rfd, some wfd =>
            let p := pcbFdSet p rfd (pipeHandleBase + slot * 2)
            let p := pcbFdSet p wfd (pipeHandleBase + slot * 2 + 1)
            let s := s.setPipe slot { used := true, buffer := true, readRefs := 1, writeRefs := 1 }
            (some (rfd, wfd), s.setPcb cur p)
          | some rfd, none => (none, closed.setPcb cur (pcbFdFree p rfd))
          | none, some wfd => (none, closed.setPcb cur (pcbFdFree p wfd))
          | none, none => (none, closed.setPcb cur p)

def pipeCloseFd (fd : Int) (s : State) : State :=
  match ProcTable.pcbGetCurrent s.table with
  | none => s
  | some cur =>
    match pipeDecodeHandle (pcbFdGetHandle (s.table.pcbs cur) fd) with
    | none => s
    | some (slot, write) =>
      let pipe := s.pipes slot
      if !pipe.used then s
      else
        let pipe :=
          if !write then { pipe with readRefs := if pipe.readRefs > 0 then pipe.readRefs - 1 else pipe.readRefs }
          else { pipe with writeRefs := if pipe.writeRefs > 0 then pipe.writeRefs - 1 else pipe.writeRefs }
        (s.setPcb cur (pcbFdFree (s.table.pcbs cur) fd)).setPipe slot (pipeFreeIfIdle pipe)

/-! ## Runs -/

inductive Action
  | pipeCreate (outOk bufferOk : Bool)
  | pipeCloseFd (fd : Int)
  | proc (a : ProcTable.Action)

def apply (s : State) : Action → State
  | .pipeCreate outOk bufferOk => (pipeCreate outOk bufferOk s).2
  | .pipeCloseFd fd => pipeCloseFd fd s
  | .proc a => { s with table := ProcTable.apply s.table a }

def step (s : State) (a : Action) : Option State := some (apply s a)

end Monios.Model.Pipe

/-!
# What goes through a pipe

`pipe_read` and `pipe_write` of `kernel/ipc/pipe.c`: the bytes of a pipe are in a ring of 4096
bytes, and both calls copy runs of them that do not go over its end.

The signal that `pipe_write` sends when nobody can read is left out, as the process table is without
signals.
-/

namespace Monios.Model.Pipe

open Monios.Library
open Monios.Model.ProcTable

def pipeBufSize : Nat := 4096

structure Data where
  ends : State := {}
  buffers : Fin 16 → Block pipeBufSize := fun _ => Block.zero

def Data.set (s : Data) (i : Fin 16) (pipe : PipeEntry) (buffer : Block pipeBufSize) : Data :=
  { ends := s.ends.setPipe i pipe, buffers := Function.update s.buffers i buffer }

/-- The slot and the end of the pipe that a descriptor of the current process is for. -/
def Data.handleOf (s : Data) (fd : Int) : Option (Fin 16 × Bool) :=
  (ProcTable.pcbGetCurrent s.ends.table).bind fun cur => pipeDecodeHandle (pcbFdGetHandle (s.ends.table.pcbs cur) fd)

/-- How much a round of `pipe_read` or `pipe_write` copies: what is left to do, up to the end of the
ring, and no more than there is. -/
def pipeChunk (left avail limit : Nat) : Nat :=
  let chunk := if left > avail then avail else left
  if chunk > limit then limit else chunk

/-- The loop of `pipe_read`; every round takes at least one byte out of the pipe. -/
def pipeReadLoop (buffer : Block pipeBufSize) (count : Nat) :
    Nat → PipeEntry → List UInt8 → PipeEntry × List UInt8
  | 0, pipe, out => (pipe, out)
  | rounds + 1, pipe, out =>
    if out.length < count ∧ 0 < pipe.count then
      let chunk := pipeChunk (count - out.length) (pipeBufSize - pipe.head) pipe.count
      pipeReadLoop buffer count rounds
        { pipe with head := (pipe.head + chunk) % pipeBufSize, count := pipe.count - chunk }
        (out ++ buffer.bytes pipe.head chunk)
    else (pipe, out)

/-- `pipe_read`: the result and what has been copied to the caller. -/
def pipeRead (fd : Int) (bufOk : Bool) (count : Nat) (s : Data) : Int × List UInt8 × Data :=
  if !bufOk || count == 0 then (-1, [], s)
  else
    match s.handleOf fd with
    | none => (-1, [], s)
    | some (slot, write) =>
      let pipe := s.ends.pipes slot
      if write || !pipe.used then (-1, [], s)
      else
        let (pipe, out) := pipeReadLoop (s.buffers slot) count pipe.count pipe []
        (out.length, out, s.set slot pipe (s.buffers slot))

/-- The loop of `pipe_write`; every round puts at least one byte into the pipe. -/
def pipeWriteLoop (data : List UInt8) :
    Nat → PipeEntry → Block pipeBufSize → Nat → PipeEntry × Block pipeBufSize × Nat
  | 0, pipe, buffer, done => (pipe, buffer, done)
  | rounds + 1, pipe, buffer, done =>
    if done < data.length ∧ pipeBufSize - pipe.count > 0 then
      let chunk := pipeChunk (data.length - done) (pipeBufSize - pipe.tail) (pipeBufSize - pipe.count)
      pipeWriteLoop data rounds
        { pipe with tail := (pipe.tail + chunk) % pipeBufSize, count := pipe.count + chunk }
        (buffer.patch pipe.tail ((data.drop done).take chunk)) (done + chunk)
    else (pipe, buffer, done)

/-- `pipe_write`; the bytes to write are `none` when the buffer is `NULL`. -/
def pipeWrite (fd : Int) (buf : Option (List UInt8)) (s : Data) : Int × Data :=
  match buf with
  | none => (-1, s)
  | some data =>
    if data.length = 0 then (-1, s)
    else
      match s.handleOf fd with
      | none => (-1, s)
      | some (slot, write) =>
        let pipe := s.ends.pipes slot
        if !write || !pipe.used then (-1, s)
        else if pipe.readRefs = 0 then (-1, s)
        else
          let (pipe, buffer, done) := pipeWriteLoop data (pipeBufSize - pipe.count) pipe (s.buffers slot) 0
          (done, s.set slot pipe buffer)

/-! ## Runs -/

inductive DataAction
  | pipeRead (fd : Int) (bufOk : Bool) (count : Nat)
  | pipeWrite (fd : Int) (buf : Option (List UInt8))
  /-- Any other call.  A pipe that it makes has a buffer with the bytes of `fresh` in it. -/
  | ends (a : Action) (fresh : Block pipeBufSize)

def applyData (s : Data) : DataAction → Data
  | .pipeRead fd bufOk count => (pipeRead fd bufOk count s).2.2
  | .pipeWrite fd buf => (pipeWrite fd buf s).2
  | .ends a fresh =>
    let ends := apply s.ends a
    { ends := ends
      buffers := fun i => if (ends.pipes i).used && !(s.ends.pipes i).used then fresh else s.buffers i }

end Monios.Model.Pipe
