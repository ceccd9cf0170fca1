import Monios.Model.ProcTable
import Monios.Model.Vm

/-!
# Fork and its allocators

`sys_fork` of `kernel/syscall/proc_mgmt.c` with everything it takes: a slot of the process table of
`pcb.c`, the frames and the chunk of memory of `vm_create_address_space`, the tables that
`vm_cow_share` adds and rewrites, and the kernel stack. The address space of the process in slot `i`
is `spaces i` of the memory manager.

`kmalloc` has one call here, and all that is read of it is whether it gives the stack.
-/

set_option autoImplicit false

namespace Monios.Model

/-- The copies of the pages that were mapped on demand, in `vm_copy_user_region`: `n` rounds from
the `i`-th page on. -/
def vmCopyDemandPages (dst src : Nat) : Nat → Nat → Vm → Vm
  | 0, _, s => s
  | n + 1, i, s =>
    match (s.spaces src).demandPages[i]? with
    | none => s
    | some vpage =>
      let srcPa := vmGetMapping s src vpage
      if srcPa = 0 then vmCopyDemandPages dst src n (i + 1) s
      else
        match s.frameAlloc with
        | (none, s) => s
        | (some page, s) =>
          match vmMapPage (s.setPage page (s.mem srcPa)) dst vpage page
              { present := true, writable := true, user := true } with
          | (true, s) => vmCopyDemandPages dst src n (i + 1) s
          | (false, s) => s.frameFree page

def vmCopyUserRegion (s : Vm) (dst src : Nat) : Bool × Vm :=
  if !(s.spaces dst).active || !(s.spaces src).active then (false, s)
  else
    let dstBase := (s.spaces dst).userPhysBase
    let srcBase := (s.spaces src).userPhysBase
    let s := { s with mem := fun p =>
      if dstBase ≤ p ∧ p < dstBase + vmUserChunkPages then s.mem (srcBase + (p - dstBase)) else s.mem p }
    (true, vmCopyDemandPages dst src vmDemandMaxPages 0 s)

namespace ForkMemory

structure ForkState where
  table : ProcTable.Table
  vm : Vm

def shareImage (s : Vm) (parent child : Nat) : Vm :=
  match vmCowShare s parent child with
  | (true, s) => s
  | (false, s) => (vmCopyUserRegion s child parent).2

/-- `child->used = false` -/
def unuse (t : ProcTable.Table) (child : Fin 64) : ProcTable.Table :=
  t.setPcb child { t.pcbs child with used := false }

def childEntry (f : SyscallFrame) (parent child : Pcb) : Pcb :=
  { child with
    addrSpaceActive := true, kernelStack := true, kernelStackSize := 65536,
    uid := parent.uid, gid := parent.gid, euid := parent.euid, egid := parent.egid,
    regs := forkRegs f, state := .ready }

/-- `sys_fork` from the call of `vm_create_address_space` on; `stackOk` says whether `kmalloc` gives
the stack. -/
def forkImage (kernel : KernelTables) (f : SyscallFrame) (stackOk : Bool) (parent child : Fin 64)
    (s : ForkState) :
    Int × ForkState :=
  match vmCreateAddressSpace kernel s.vm child with
  | (false, vm) => (-1, ⟨unuse s.table child, vm⟩)
  | (true, vm) =>
    let vm := shareImage vm parent child
    if !stackOk then (-1, ⟨unuse s.table child, vmDestroyAddressSpace vm child⟩)
    else
      let table := s.table.setPcb child (childEntry f (s.table.pcbs parent) (s.table.pcbs child))
      (ProcTable.signed (table.pcbs child).pid, ⟨table, vm⟩)

/-- `sys_fork`; no frame is `NULL`. -/
def sysFork (kernel : KernelTables) (frame : Option SyscallFrame) (stackOk : Bool)
    (s : ForkState) : Int × ForkState :=
  match ProcTable.pcbGetCurrent s.table, frame with
  | some parent, some f =>
    match ProcTable.pcbCreateChild (ProcTable.signed (s.table.pcbs parent).pid) s.table with
    | (none, table) => (-1, { s with table := table })
    | (some child, table) =>
      let par := table.pcbs parent
      let table := table.setPcb child { table.pcbs child with name := par.name, path := par.path }
      -- the entry has been zeroed, and the address space that was in it with it
      forkImage kernel f stackOk parent child ⟨table, s.vm.setSpace child {}⟩
  | _, _ => (-1, s)

end ForkMemory

end Monios.Model
