import Monios.Library.Heap

/-!
# The kernel heap

`kmalloc` and `kfree` of `kernel/mm/memory.c` on the list of blocks.  The statistics and the leak
tracker are left out.
-/

set_option autoImplicit false

namespace Monios.Model

open Monios.Library

/-- `sizeof(memory_block_t)` and `split_overhead`. -/
def memoryBlockSize : Nat := 24

def splitOverhead : Nat := 40

structure KernelHeap where
  base : Nat
  size : Nat
  blocks : List HeapBlock
  fills : HeapBlock.Fills memoryBlockSize size blocks

def alignUp (value : Nat) : Nat := if value > 2 ^ 64 - 16 then 0 else (value + 15) / 16 * 16

/-- The size that `kmalloc` looks for. -/
def kmallocSize (size : Nat) : Nat := alignUp (if size = 0 then 1 else size)

/-- `kmalloc`, for sizes of 64 bits. -/
def kmalloc (h : KernelHeap) (size : Nat) : Option (Nat × KernelHeap) :=
  if hsize : kmallocSize size = 0 ∨ kmallocSize size > h.size then none
  else
    match hplace : HeapBlock.place memoryBlockSize splitOverhead (kmallocSize size) h.base h.blocks with
    | none => none
    | some (p, blocks) =>
      some (p, { h with
        blocks := blocks
        fills := h.fills.place (by decide) (Nat.pos_of_ne_zero (not_or.mp hsize).1) hplace })

def kfree (h : KernelHeap) (p : Nat) : KernelHeap :=
  if p < h.base + memoryBlockSize ∨ h.base + h.size ≤ p then h
  else
    match HeapBlock.blockAt memoryBlockSize p h.base h.blocks with
    | none => h
    | some b =>
      if b.size > h.base + h.size - p ∨ b.free then h
      else
        { h with
          blocks := HeapBlock.coalesce memoryBlockSize (HeapBlock.release memoryBlockSize p h.base h.blocks)
          fills := h.fills.release.coalesce }

/-- There is a live block of `n` bytes at `p`. -/
def KernelHeap.Live (h : KernelHeap) (p n : Nat) : Prop :=
  HeapBlock.Live memoryBlockSize h.base h.blocks p n

theorem kmalloc_live {h h' : KernelHeap} {size p : Nat} (hm : kmalloc h size = some (p, h')) :
    (∀ n, ¬ h.Live p n) ∧ ∃ m, ∀ q n, h'.Live q n ↔ h.Live q n ∨ (q = p ∧ n = m) := by
  unfold kmalloc at hm
  split at hm
  · exact nomatch hm
  · split at hm
    · exact nomatch hm
    · next hplace =>
        obtain ⟨rfl, rfl⟩ := Prod.mk.inj (Option.some.inj hm)
        exact HeapBlock.place_live (by decide) (by decide) hplace

theorem kfree_live (h : KernelHeap) (p q n : Nat) : (kfree h p).Live q n ↔ h.Live q n ∧ q ≠ p := by
  -- what is live lies in the heap
  have hrange : ∀ n, h.Live p n → h.base + memoryBlockSize ≤ p ∧ p + n ≤ h.base + h.size ∧
      0 < n := by
    intro n hl
    obtain ⟨b, hb, rfl⟩ := hl.mem
    refine ⟨hl.le, ?_, h.fills.2 b hb⟩
    have := hl.add_le
    rwa [h.fills.1] at this
  have hnot : (∀ n, ¬ h.Live p n) → (h.Live q n ↔ h.Live q n ∧ q ≠ p) := by
    intro hdead
    refine ⟨fun hl => ⟨hl, ?_⟩, And.left⟩
    rintro rfl
    exact hdead n hl
  unfold kfree
  split
  · apply hnot
    intro n hl
    have := hrange n hl
    omega
  · split
    · next hnone =>
        apply hnot
        intro n hl
        rw [hl.blockAt_eq (by decide)] at hnone
        exact nomatch hnone
    · next b hb =>
        split
        · next hc =>
            apply hnot
            intro n hl
            rw [hl.blockAt_eq (by decide)] at hb
            obtain rfl := Option.some.inj hb
            have := hrange n hl
            rcases hc with hc | hc
            · simp only [] at hc
              omega
            · exact nomatch hc
        · exact (HeapBlock.coalesce_live _ q n).trans (HeapBlock.release_live (by decide) _ q n)

end Monios.Model

/-!
# The kernel heap in memory

`kernel/mm/memory.c` with the headers of the blocks in memory, linked by their `next` pointers.
(`Monios.Model.KernelHeap` has the same calls on a list of blocks.)  Addresses and sizes have 64
bits: sums are reduced, and `NULL` is address 0.

Memory is a map from addresses to the headers that are stored there.  Two headers of the list are
never closer than a header and 16 bytes, so that writing one of them does not touch another.  The
lock and the leak tracker are left out.
-/

namespace Monios.Model.MemoryHeap

/-- `memory_block_t` -/
structure Header where
  size : Nat := 0
  free : Bool := false
  next : Nat := 0

abbrev Memory := Nat → Header

/-- The globals of `memory.c` and the memory they point into. -/
structure Heap where
  mem : Memory
  kernelHeap : Nat
  memoryHead : Nat
  heapSize : Nat
  used : Nat := 0
  /-- `g_memory_high_water_used` -/
  highWater : Nat := 0
  allocs : Nat := 0
  frees : Nat := 0

/-- The region `memory_init` takes: the configured one, or the fixed one of the BIOS. -/
def heapRegion (configuredBase configuredSize : Nat) : Nat × Nat :=
  if configuredBase = 0 ∨ configuredBase > 0xFFFFFFFFFFFFFFFF - configuredSize ∨
      (configuredBase + configuredSize) % 2 ^ 64 < configuredBase ∨ configuredSize < memoryBlockSize + 16 then
    (0x05000000, 32 * 1024 * 1024)
  else (configuredBase, configuredSize)

/-- `memory_init`, whatever is in memory. -/
def memoryInit (configuredBase configuredSize : Nat) (mem : Memory) : Heap :=
  let (base, size) := heapRegion configuredBase configuredSize
  { mem := Function.update mem base ⟨size - memoryBlockSize, true, 0⟩
    kernelHeap := base
    memoryHead := base
    heapSize := size }

/-! ## `kmalloc` -/

/-- The loop of `kmalloc`: the first free block that is large enough.  `none` says that the loop is
not over after so many rounds. -/
def findBlock (mem : Memory) (size : Nat) : Nat → Nat → Option (Option Nat)
  | 0, _ => none
  | rounds + 1, block =>
    if block = 0 then some none
    else if (mem block).free ∧ (mem block).size ≥ size then some (some block)
    else findBlock mem size rounds (mem block).next

/-- What `kmalloc` writes when it takes a block. -/
def takeBlock (mem : Memory) (size block : Nat) : Memory :=
  let b := mem block
  if b.size - size ≥ splitOverhead then
    let next := (block + memoryBlockSize + size) % 2 ^ 64
    let mem := Function.update mem next ⟨b.size - size - memoryBlockSize, true, b.next⟩
    Function.update mem block ⟨size, false, next⟩
  else Function.update mem block { b with free := false }

/-- `kmalloc`.  The result is `none` when the loop does not end; the pointer 0 is `NULL`.  The loop
depends on the pointer only, so that one that is not over after `2 ^ 64` rounds never is. -/
def kmalloc (size : Nat) (h : Heap) : Option (Nat × Heap) :=
  let size := kmallocSize size
  if size = 0 ∨ size > h.heapSize then some (0, h)
  else
    match findBlock h.mem size (2 ^ 64) h.memoryHead with
    | none => none
    | some none => some (0, h)
    | some (some block) =>
      let mem := takeBlock h.mem size block
      let used := (h.used + (mem block).size) % 2 ^ 64
      some ((block + memoryBlockSize) % 2 ^ 64,
        { h with mem := mem, used := used, highWater := if used > h.highWater then used else h.highWater,
                 allocs := (h.allocs + 1) % 2 ^ 32 })

/-! ## `kfree` -/

/-- The loop of `kfree`: whether a block is in the list. -/
def scanBlock (mem : Memory) (block : Nat) : Nat → Nat → Option Bool
  | 0, _ => none
  | rounds + 1, scan =>
    if scan = 0 then some false
    else if scan = block then some true
    else scanBlock mem block rounds (mem scan).next

/-- The loop of `coalesce_blocks`. -/
def coalesceBlocksFrom : Nat → Nat → Memory → Option Memory
  | 0, _, _ => none
  | rounds + 1, block, mem =>
    if block ≠ 0 ∧ (mem block).next ≠ 0 then
      let b := mem block
      let n := mem b.next
      if b.free ∧ n.free then
        coalesceBlocksFrom rounds block
          (Function.update mem block ⟨(b.size + (memoryBlockSize + n.size) % 2 ^ 64) % 2 ^ 64, b.free, n.next⟩)
      else coalesceBlocksFrom rounds b.next mem
    else some mem

/-- `coalesce_blocks`.  Every round goes on to another block or takes one out of the list. -/
def coalesceBlocks (head : Nat) (mem : Memory) : Option Memory :=
  coalesceBlocksFrom (2 ^ 64) head mem

/-- `kfree`; the result is `none` when a loop does not end. -/
def kfree (ptr : Nat) (h : Heap) : Option Heap :=
  let heapEnd := (h.kernelHeap + h.heapSize) % 2 ^ 64
  if ptr = 0 then some h
  else if h.kernelHeap = 0 ∨ heapEnd < h.kernelHeap ∨ ptr < (h.kernelHeap + memoryBlockSize) % 2 ^ 64 ∨ ptr ≥ heapEnd then
    some h
  else
    let block := ptr - memoryBlockSize
    match scanBlock h.mem block (2 ^ 64) h.memoryHead with
    | none => none
    | some false => some h
    | some true =>
      let b := h.mem block
      if b.size > heapEnd - ptr then some h
      else if b.free then some h
      else
        let mem := Function.update h.mem block { b with free := true }
        match coalesceBlocks h.memoryHead mem with
        | none => none
        | some mem =>
          some { h with mem := mem, used := if h.used ≥ b.size then h.used - b.size else 0,
                        frees := (h.frees + 1) % 2 ^ 32 }

/-! ## Runs -/

inductive Call
  | kmalloc (size : UInt64)
  | kfree (ptr : UInt64)

end Monios.Model.MemoryHeap
