import Mathlib.Algebra.Order.Ring.Int
import Mathlib.Data.List.Basic

/-!
# Frames, page tables and address spaces

The physical frame pool of `frame.c`, the page tables that `mmu.c` sets up for the kernel and the
address spaces of `vm.c`.  Addresses of pages are page numbers, and an entry of a table has the bits
that the code reads and writes.  The code follows physical pointers directly, all of this memory
being identity-mapped, so a table is a page of the physical memory.
-/

set_option autoImplicit false

namespace Monios.Model

/-! ## Memory -/

/-- The `PAGE_*` flags. -/
structure PageFlags where
  present : Bool := false
  writable : Bool := false
  user : Bool := false
  large : Bool := false
  cow : Bool := false
deriving DecidableEq

/-- An entry of a table; a large one names the first of its 512 pages, the lower bits of `frame`
being ignored. -/
structure PageEntry extends PageFlags where
  frame : Nat := 0
deriving DecidableEq

abbrev PhysMem := Nat → Nat → PageEntry

/-- `PAGE_PRESENT | PAGE_WRITABLE | PAGE_USER`. -/
def userPage (page : Nat) : PageEntry :=
  { present := true, writable := true, user := true, frame := page }

def pml4Idx (vaddr : Nat) : Nat := vaddr / 2 ^ 39 % 512
def pdptIdx (vaddr : Nat) : Nat := vaddr / 2 ^ 30 % 512
def pdIdx (vaddr : Nat) : Nat := vaddr / 2 ^ 21 % 512
def ptIdx (vaddr : Nat) : Nat := vaddr / 2 ^ 12 % 512

/-! ## The frame pool -/

def frameBasePhys : Nat := 0x1000
def frameTotalCount : Nat := 16384

structure FramePool where
  used : Nat → Bool := fun _ => false
  cursor : Nat := 0

/-- `bitmap_find_run_zero` for a run of one bit. -/
def bitmapFindRunZero (used : Nat → Bool) (start : Nat) : Option Nat :=
  (List.range' start (frameTotalCount - start)).find? fun i => !used i

/-- `frame_alloc(1)`. -/
def FramePool.alloc (p : FramePool) : Option (Nat × FramePool) :=
  match (bitmapFindRunZero p.used p.cursor).or (bitmapFindRunZero p.used 0) with
  | none => none
  | some i => some (frameBasePhys + i,
      { used := fun j => if j = i then true else p.used j
        cursor := if i + 1 ≥ frameTotalCount then 0 else i + 1 })

/-- `frame_free(page, 1)`, which does nothing when the page is not a used frame of the pool. -/
def FramePool.free (p : FramePool) (page : Nat) : FramePool :=
  if frameBasePhys ≤ page ∧ page < frameBasePhys + frameTotalCount then
    { p with used := fun j => if j = page - frameBasePhys then false else p.used j }
  else p

/-! ## The kernel's own tables -/

/-- Where the linker puts `pml4`, `pdpt`, `pd0`, `pd1`, `pd2`, `pd3`, `pd3b`, `pd7` and `pd7b`.
They are part of the kernel's image, which starts at `KERNEL_PHYS_BASE` and ends below the kernel
heap. -/
structure KernelTables where
  table : Fin 9 → Nat
  injective : Function.Injective table
  inImage : ∀ t, 0x2000 ≤ table t ∧ table t < 0x5000

/-- The table that `pdpt[k]` points at. -/
def kernelDirectory : Nat → Option (Fin 9)
  | 0 => some 2
  | 1 => some 3
  | 2 => some 4
  | 3 => some 5
  | 4 => some 6
  | 7 => some 7
  | 8 => some 8
  | _ => none

/-- The directory of the `k`-th GiB maps it to itself by pages of 2 MiB. -/
def identityPage (k j : Nat) : PageEntry :=
  { present := true, writable := true, large := true, frame := k * 0x40000 + j * 512 }

def initPageTables (kernel : KernelTables) (t : Fin 9) (j : Nat) : PageEntry :=
  match t with
  | 0 => if j = 0 then userPage (kernel.table 1) else {}
  | 1 =>
    match kernelDirectory j with
    | some d =>
      { present := true, writable := true, user := decide (j = 0), frame := kernel.table d }
    | none => {}
  | 2 => if j = 32 ∨ j = 33 then { identityPage 0 j with user := true } else identityPage 0 j
  | 3 => identityPage 1 j
  | 4 => identityPage 2 j
  | 5 => identityPage 3 j
  | 6 => identityPage 4 j
  | 7 => identityPage 7 j
  | 8 => identityPage 8 j

/-! ## Address spaces -/

def vmUserPhysBase : Nat := 0x8000
def vmUserChunkPages : Nat := 1024
def vmUserChunkCount : Nat := 64
def vmUserBase : Nat := 0x04000000
def vmUserLimit : Nat := 0x04400000
def vmDemandEnd : Nat := 0x100000000
def vmDemandMaxPages : Nat := 256
def vmDemandMaxTables : Nat := 64

/-- `vm_address_space_t`. -/
structure AddressSpace where
  pml4Phys : Nat := 0
  userPhysBase : Nat := 0
  active : Bool := false
  cowShared : Bool := false
  demandPages : List Nat := []
  ptPages : List Nat := []

structure Vm where
  frames : FramePool
  userChunks : Nat → Bool
  mem : PhysMem
  spaces : Nat → AddressSpace

namespace Vm

def write (s : Vm) (page i : Nat) (e : PageEntry) : Vm :=
  { s with mem := fun p j => if p = page ∧ j = i then e else s.mem p j }

def setPage (s : Vm) (page : Nat) (contents : Nat → PageEntry) : Vm :=
  { s with mem := fun p => if p = page then contents else s.mem p }

def setSpace (s : Vm) (i : Nat) (a : AddressSpace) : Vm :=
  { s with spaces := fun j => if j = i then a else s.spaces j }

def frameAlloc (s : Vm) : Option Nat × Vm :=
  match s.frames.alloc with
  | none => (none, s)
  | some (page, frames) => (some page, { s with frames := frames })

def frameFree (s : Vm) (page : Nat) : Vm := { s with frames := s.frames.free page }

/-- `if (page) frame_free(page, 1)`. -/
def frameFreeSome (s : Vm) : Option Nat → Vm
  | none => s
  | some page => s.frameFree page

end Vm

/-- After `init_page_tables`, `frame_init` and `vm_init`, whatever else is in memory. -/
def vmInit (kernel : KernelTables) (ram : PhysMem) : Vm where
  frames := {}
  userChunks := fun _ => false
  mem := fun p =>
    match (List.finRange 9).find? fun t => kernel.table t = p with
    | some t => initPageTables kernel t
    | none => ram p
  spaces := fun _ => {}

def vmAllocUserChunk (s : Vm) : Option Nat × Vm :=
  match (List.range vmUserChunkCount).find? fun c => !s.userChunks c with
  | none => (none, s)
  | some c => (some c, { s with userChunks := fun d => if d = c then true else s.userChunks d })

/-- `vm_free_user_chunk` for the chunk that starts at the page, if it is one. -/
def vmFreeUserChunk (s : Vm) (userPhys : Nat) : Vm :=
  if vmUserPhysBase ≤ userPhys ∧ userPhys < vmUserPhysBase + vmUserChunkCount * vmUserChunkPages then
    let chunk := (userPhys - vmUserPhysBase) / vmUserChunkPages
    { s with userChunks := fun d => if d = chunk then false else s.userChunks d }
  else s

def mmuClonePdpt (kernel : KernelTables) (s : Vm) (dst : Nat) : Vm :=
  s.setPage dst fun j => if j = 0 then {} else s.mem (kernel.table 1) j

def mmuClonePd0 (kernel : KernelTables) (s : Vm) (dst : Nat) : Vm :=
  s.setPage dst fun j => if j = 32 ∨ j = 33 then {} else s.mem (kernel.table 2) j

/-- The tables of `vm_create_address_space`, once its pages are there. -/
def vmBuildTables (kernel : KernelTables) (s : Vm) (pml4 pdpt pd0 userPhys : Nat) : Vm :=
  let s := ((s.setPage pml4 fun _ => {}).setPage pdpt fun _ => {}).setPage pd0 fun _ => {}
  let s := mmuClonePd0 kernel (mmuClonePdpt kernel s pdpt) pd0
  let s := (s.write pdpt 0 (userPage pd0)).write pml4 0 (userPage pdpt)
  let s := s.write pd0 32 { userPage userPhys with large := true }
  let s := s.write pd0 33 { userPage (userPhys + 512) with large := true }
  -- the region of the new process starts out as zeros
  { s with mem := fun p => if userPhys ≤ p ∧ p < userPhys + vmUserChunkPages then fun _ => {} else s.mem p }

def vmCreateAddressSpace (kernel : KernelTables) (s : Vm) (out : Nat) : Bool × Vm :=
  let s := s.setSpace out {}
  let (pml4, s) := s.frameAlloc
  let (pdpt, s) := s.frameAlloc
  let (pd0, s) := s.frameAlloc
  match pml4, pdpt, pd0 with
  | some pml4, some pdpt, some pd0 =>
    match vmAllocUserChunk s with
    | (none, s) => (false, ((s.frameFree pml4).frameFree pdpt).frameFree pd0)
    | (some chunk, s) =>
      let userPhys := vmUserPhysBase + chunk * vmUserChunkPages
      let s := vmBuildTables kernel s pml4 pdpt pd0 userPhys
      (true, s.setSpace out { pml4Phys := pml4, userPhysBase := userPhys, active := true })
  | pml4, pdpt, pd0 => (false, ((s.frameFreeSome pml4).frameFreeSome pdpt).frameFreeSome pd0)

/-! ## Walking the tables -/

def vmDirectoryEntry (mem : PhysMem) (pml4 vaddr : Nat) : Option PageEntry :=
  let pml4e := mem pml4 (pml4Idx vaddr)
  if !pml4e.present then none
  else
    let pdpte := mem pml4e.frame (pdptIdx vaddr)
    if !pdpte.present then none
    else
      let pde := mem pdpte.frame (pdIdx vaddr)
      if !pde.present then none else some pde

def vmPageTable (mem : PhysMem) (pml4 vaddr : Nat) : Option Nat :=
  match vmDirectoryEntry mem pml4 vaddr with
  | some pde => if pde.large then none else some pde.frame
  | none => none

/-- `vm_get_mapping`, 0 when the address is not mapped. -/
def vmGetMapping (s : Vm) (i vaddr : Nat) : Nat :=
  if !(s.spaces i).active then 0
  else
    match vmDirectoryEntry s.mem (s.spaces i).pml4Phys vaddr with
    | none => 0
    | some pde =>
      if pde.large then pde.frame / 512 * 512 + ptIdx vaddr
      else
        let pte := s.mem pde.frame (ptIdx vaddr)
        if !pte.present then 0 else pte.frame

def vmGetPd0 (s : Vm) (i : Nat) : Option Nat :=
  let pml4e := s.mem (s.spaces i).pml4Phys 0
  if !pml4e.present then none
  else
    let pdpte := s.mem pml4e.frame 0
    if !pdpte.present then none else some pdpte.frame

/-! ## Destroying -/

/-- What the first loop of `vm_destroy_address_space` does for a page that was mapped on demand. -/
def vmFreeDemandPage (mem : PhysMem) (pml4 : Nat) (frames : FramePool) (vaddr : Nat) : FramePool :=
  match vmPageTable mem pml4 vaddr with
  | none => frames
  | some pt =>
    let pte := mem pt (ptIdx vaddr)
    if !pte.present || pte.cow then frames else frames.free pte.frame

def vmFreeWindow (mem : PhysMem) (pd0 : Nat) (frames : FramePool) (i : Nat) : FramePool :=
  let pde := mem pd0 i
  if pde.present && !pde.large then
    let frames := (List.range 512).foldl
      (fun frames j => if (mem pde.frame j).present then frames.free (mem pde.frame j).frame else frames) frames
    frames.free pde.frame
  else frames

/-- `vm_destroy_address_space`; the PML4, the PDPT and PD0 are never freed. -/
def vmDestroyAddressSpace (s : Vm) (i : Nat) : Vm :=
  let as := s.spaces i
  if !as.active then s
  else
    let frames := as.demandPages.foldl (vmFreeDemandPage s.mem as.pml4Phys) s.frames
    let frames := as.ptPages.foldl (fun frames page => if page ≠ 0 then frames.free page else frames) frames
    let gone := { as with demandPages := [], ptPages := [], active := false, cowShared := false, pml4Phys := 0, userPhysBase := 0 }
    if as.cowShared then
      let frames :=
        match vmGetPd0 s i with
        | some pd0 => [32, 33].foldl (vmFreeWindow s.mem pd0) frames
        | none => frames
      ({ s with frames := frames }).setSpace i gone
    else (vmFreeUserChunk { s with frames := frames } as.userPhysBase).setSpace i gone

/-! ## Mapping on demand -/

def vmTrackPageTable (s : Vm) (i page : Nat) : Vm :=
  let as := s.spaces i
  if as.ptPages.length ≥ vmDemandMaxTables then s else s.setSpace i { as with ptPages := as.ptPages ++ [page] }

/-- Records an address in `demand_pages`, as long as there is room. -/
def vmRecordDemand (s : Vm) (i vaddr : Nat) : Vm :=
  let as := s.spaces i
  if as.demandPages.length < vmDemandMaxPages then s.setSpace i { as with demandPages := as.demandPages ++ [vaddr] } else s

def vmEnsureTable (s : Vm) (i table idx : Nat) : Option PageEntry × Vm :=
  let e := s.mem table idx
  if e.present then (some e, s)
  else
    match s.frameAlloc with
    | (none, s) => (none, s)
    | (some page, s) =>
      let s := (s.setPage page fun _ => {}).write table idx (userPage page)
      (some (userPage page), vmTrackPageTable s i page)

/-- The page table for an address, with the tables that are missing on the way: the walk that
`vm_map_page` and `vm_cow_share` both have. -/
def vmWalkAlloc (s : Vm) (i vaddr : Nat) : Option Nat × Vm :=
  let pml4e := s.mem (s.spaces i).pml4Phys (pml4Idx vaddr)
  if !pml4e.present then (none, s)
  else
    match vmEnsureTable s i pml4e.frame (pdptIdx vaddr) with
    | (none, s) => (none, s)
    | (some pdpte, s) =>
      match vmEnsureTable s i pdpte.frame (pdIdx vaddr) with
      | (none, s) => (none, s)
      | (some pde, s) => if pde.large then (none, s) else (some pde.frame, s)

def vmMapPage (s : Vm) (i vaddr page : Nat) (flags : PageFlags) : Bool × Vm :=
  if !(s.spaces i).active then (false, s)
  else
    match vmWalkAlloc s i vaddr with
    | (none, s) => (false, s)
    | (some pt, s) =>
      (true, vmRecordDemand (s.write pt (ptIdx vaddr) { flags with frame := page }) i (vaddr / 4096 * 4096))

/-! ## Copy on write -/

def cowEntry (e : PageEntry) : PageEntry := { e with writable := false, cow := true }

/-- The body of the loop of `vm_cow_share` over the pages that the parent has mapped on demand. -/
def vmCowShareDemand (s : Vm) (parent child vpage : Nat) : Vm :=
  let src := vmGetMapping s parent vpage
  if src = 0 then s
  else
    match vmWalkAlloc s child vpage with
    | (none, s) => s
    | (some pt, s) =>
      let s := s.write pt (ptIdx vpage) { present := true, user := true, cow := true, frame := src }
      let s := vmRecordDemand s child vpage
      let ppdpt := (s.mem (s.spaces parent).pml4Phys (pml4Idx vpage)).frame
      let ppd := (s.mem ppdpt (pdptIdx vpage)).frame
      let ppt := (s.mem ppd (pdIdx vpage)).frame
      s.write ppt (ptIdx vpage) (cowEntry (s.mem ppt (ptIdx vpage)))

/-- The user window of `vm_cow_share`: the child gets the parent's two entries, and both are
copy-on-write. -/
def vmCowShareWindow (s : Vm) (parentPd0 childPd0 : Nat) : Vm :=
  let s := s.write childPd0 32 (cowEntry (s.mem parentPd0 32))
  let s := s.write childPd0 33 (cowEntry (s.mem parentPd0 33))
  let s := s.write parentPd0 32 (cowEntry (s.mem parentPd0 32))
  s.write parentPd0 33 (cowEntry (s.mem parentPd0 33))

def vmCowShare (s : Vm) (parent child : Nat) : Bool × Vm :=
  if !(s.spaces parent).active || !(s.spaces child).active then (false, s)
  else
    match vmGetPd0 s parent, vmGetPd0 s child with
    | some parentPd0, some childPd0 =>
      let s := vmFreeUserChunk s (s.spaces child).userPhysBase
      let s := s.setSpace child { s.spaces child with userPhysBase := (s.spaces parent).userPhysBase }
      let s := vmCowShareWindow s parentPd0 childPd0
      let s := (List.range vmDemandMaxPages).foldl
        (fun s n =>
          match (s.spaces parent).demandPages[n]? with
          | some vpage => vmCowShareDemand s parent child vpage
          | none => s) s
      let s := s.setSpace parent { s.spaces parent with cowShared := true }
      (true, s.setSpace child { s.spaces child with cowShared := true })
    | _, _ => (false, s)

/-- The loop of `vm_handle_cow_fault` that copies the pages of the window from the `j`-th on, and
takes everything back when there is no frame left. -/
def vmSplitLoop (newPt src : Nat) : Nat → Nat → Vm → Bool × Vm
  | 0, _, s => (true, s)
  | n + 1, j, s =>
    match s.frameAlloc with
    | (none, s) =>
      let s := (List.range j).foldl (fun s k => s.frameFree (s.mem newPt k).frame) s
      (false, s.frameFree newPt)
    | (some page, s) =>
      let s := s.setPage page (s.mem (src + j))
      vmSplitLoop newPt src n (j + 1) (s.write newPt j (userPage page))

/-- `vm_handle_cow_fault` in the user window. -/
def vmSplitWindow (s : Vm) (i pd0 idx : Nat) : Bool × Vm :=
  let pde := s.mem pd0 idx
  if !pde.present || !pde.large || !pde.cow then (false, s)
  else
    match s.frameAlloc with
    | (none, s) => (false, s)
    | (some newPt, s) =>
      match vmSplitLoop newPt (pde.frame / 512 * 512) 512 0 (s.setPage newPt fun _ => {}) with
      | (false, s) => (false, s)
      | (true, s) => (true, vmTrackPageTable (s.write pd0 idx (userPage newPt)) i newPt)

/-- `vm_handle_cow_fault` in the region that is mapped on demand. -/
def vmCopyDemandPage (s : Vm) (i vaddr : Nat) : Bool × Vm :=
  match vmPageTable s.mem (s.spaces i).pml4Phys vaddr with
  | none => (false, s)
  | some pt =>
    let pte := s.mem pt (ptIdx vaddr)
    if !pte.present || !pte.cow then (false, s)
    else
      match s.frameAlloc with
      | (none, s) => (false, s)
      | (some page, s) =>
        (true, (s.setPage page (s.mem pte.frame)).write pt (ptIdx vaddr) (userPage page))

/-- `vm_handle_cow_fault`: write faults on pages that are present. -/
def vmHandleCowFault (s : Vm) (i faultAddr errorCode : Nat) : Bool × Vm :=
  if !(s.spaces i).active || !errorCode.testBit 0 || !errorCode.testBit 1 then (false, s)
  else
    match vmGetPd0 s i with
    | none => (false, s)
    | some pd0 =>
      if vmUserBase ≤ faultAddr ∧ faultAddr < vmUserLimit then vmSplitWindow s i pd0 (pdIdx faultAddr)
      else if vmUserLimit ≤ faultAddr ∧ faultAddr < vmDemandEnd then vmCopyDemandPage s i faultAddr
      else (false, s)

/-- `vm_handle_page_fault`, for the current process. -/
def vmHandlePageFault (s : Vm) (current : Option Nat) (faultAddr errorCode : Nat) : Bool × Vm :=
  match current with
  | none => (false, s)
  | some i =>
    if !errorCode.testBit 2 || !(s.spaces i).active then (false, s)
    else if errorCode.testBit 0 then vmHandleCowFault s i faultAddr errorCode
    else if faultAddr < vmUserLimit ∨ vmDemandEnd ≤ faultAddr then (false, s)
    else
      match s.frameAlloc with
      | (none, s) => (false, s)
      | (some page, s) =>
        match vmMapPage (s.setPage page fun _ => {}) i faultAddr page { present := true, writable := true, user := true } with
        | (true, s) => (true, s)
        | (false, s) => (false, s.frameFree page)

/-! ## Runs -/

inductive VmAction
  | create (out : Nat)
  | destroy (i : Nat)
  | mapPage (i vaddr page : Nat) (flags : PageFlags)
  | pageFault (current : Option Nat) (faultAddr errorCode : Nat)
  | cowShare (parent child : Nat)
  | cowFault (i faultAddr errorCode : Nat)

def vmStep (kernel : KernelTables) (s : Vm) : VmAction → Option Vm
  | .create out => some (vmCreateAddressSpace kernel s out).2
  | .destroy i => some (vmDestroyAddressSpace s i)
  | .mapPage i vaddr page flags => some (vmMapPage s i vaddr page flags).2
  | .pageFault current faultAddr errorCode =>
    some (vmHandlePageFault s current faultAddr errorCode).2
  | .cowShare parent child => some (vmCowShare s parent child).2
  | .cowFault i faultAddr errorCode => some (vmHandleCowFault s i faultAddr errorCode).2

end Monios.Model
