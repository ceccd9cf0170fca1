import Monios.Library.Run
import Monios.Model.KernelHeap

/-!
# Integrity of the kernel heap

The headers in memory and the list of blocks they stand for. `Chain` says that the `next` pointers
from an address on lead through a list of blocks that lie one behind the other; each loop of
`memory.c` is then the corresponding operation of the library of heaps on that list. `StandsFor.run`:
a run of calls in memory is one of the heap that is a list.
-/

set_option autoImplicit false

namespace Monios.Analysis

open Monios.Library Monios.Library.HeapBlock Monios.Model.MemoryHeap
open Monios.Model (memoryBlockSize splitOverhead kmallocSize alignUp KernelHeap)

variable {mem : Memory} {p a : Nat} {b : HeapBlock}

/-- The pointer leads to the blocks, the first of which is at address `a` and the last of which has
no successor. -/
def Chain (mem : Memory) : Nat → Nat → List HeapBlock → Prop
  | p, _, [] => p = 0
  | p, a, b :: bs =>
    p = a ∧ (mem a).size = b.size ∧ (mem a).free = b.free ∧ Chain mem (mem a).next (a + memoryBlockSize + b.size) bs

variable {bs : List HeapBlock}

theorem Chain.congr {mem mem' : Memory} (h : Chain mem p a bs)
    (hsame : ∀ x, a ≤ x → x < a + total memoryBlockSize bs → mem' x = mem x) :
    Chain mem' p a bs := by
  induction bs generalizing p a with
  | nil => exact h
  | cons b bs ih =>
    obtain ⟨rfl, hsize, hfree, hrest⟩ := h
    unfold total at hsame
    have hself : mem' p = mem p := by
      apply hsame p le_rfl
      unfold memoryBlockSize
      omega
    refine ⟨rfl, by rw [hself, hsize], by rw [hself, hfree], ?_⟩
    rw [hself]
    apply ih hrest
    intro x hx hx'
    apply hsame x
    · omega
    · omega

theorem Chain.cons {mem : Memory} {a : Nat} {b : HeapBlock} {bs : List HeapBlock}
    (hsize : (mem a).size = b.size) (hfree : (mem a).free = b.free)
    (h : Chain mem (mem a).next (a + memoryBlockSize + b.size) bs) :
    Chain mem a a (b :: bs) := ⟨rfl, hsize, hfree, h⟩

theorem chain_takeBlock {a size : Nat}
    (h : Chain mem a a (b :: bs)) (hend : a + total memoryBlockSize (b :: bs) < 2 ^ 64)
    (hsize : size ≤ b.size) :
    Chain (takeBlock mem size a) a a
        (if splitOverhead ≤ b.size - size then ⟨size, false⟩ :: ⟨b.size - size - memoryBlockSize, true⟩ :: bs
          else ⟨b.size, false⟩ :: bs) ∧ ∀ x, x < a → takeBlock mem size a x = mem x := by
  obtain ⟨-, hbsize, hbfree, hrest⟩ := h
  unfold total at hend
  unfold takeBlock
  dsimp only
  by_cases hsplit : splitOverhead ≤ b.size - size
  · rw [hbsize, if_pos hsplit, if_pos hsplit]
    have hnext : (a + memoryBlockSize + size) % 2 ^ 64 = a + memoryBlockSize + size := by
      unfold memoryBlockSize at *
      omega
    have hne : a ≠ a + memoryBlockSize + size := by
      unfold memoryBlockSize
      omega
    rw [hnext]
    generalize hmem : Function.update (Function.update mem (a + memoryBlockSize + size)
      ⟨b.size - size - memoryBlockSize, true, (mem a).next⟩) a ⟨size, false, a + memoryBlockSize + size⟩ = mem'
    have hat : mem' a = ⟨size, false, a + memoryBlockSize + size⟩ := by
      rw [← hmem, Function.update_self]
    have hatNext : mem' (a + memoryBlockSize + size) = ⟨b.size - size - memoryBlockSize, true, (mem a).next⟩ := by
      rw [← hmem, Function.update_of_ne hne.symm, Function.update_self]
    have hother (x : Nat) (hx : x ≠ a) (hx' : x ≠ a + memoryBlockSize + size) : mem' x = mem x := by
      rw [← hmem, Function.update_of_ne hx, Function.update_of_ne hx']
    refine ⟨.cons (by rw [hat]) (by rw [hat]) ?_, fun x hx => hother x (by omega) (by omega)⟩
    rw [hat]
    refine .cons (by rw [hatNext]) (by rw [hatNext]) ?_
    rw [hatNext]
    unfold splitOverhead memoryBlockSize at *
    dsimp only
    rw [show a + 24 + size + 24 + (b.size - size - 24) = a + 24 + b.size by omega]
    exact hrest.congr fun x hx _ => hother x (by omega) (by omega)
  · rw [if_neg hsplit, if_neg (by rw [hbsize]; exact hsplit)]
    have hother (x : Nat) (hx : x ≠ a) : Function.update mem a { mem a with free := false } x = mem x :=
      Function.update_of_ne hx _ _
    refine ⟨.cons ?_ ?_ ?_, fun x hx => hother x (by omega)⟩
    · rw [Function.update_self]
      exact hbsize
    · rw [Function.update_self]
    · rw [Function.update_self]
      refine hrest.congr fun x hx _ => hother x ?_
      unfold memoryBlockSize at hx
      omega

theorem findBlock_spec {size p a : Nat} (h : Chain mem p a bs) (ha : 0 < a)
    (hend : a + total memoryBlockSize bs < 2 ^ 64) (rounds : Nat) (hrounds : bs.length < rounds) :
    (findBlock mem size rounds p = some none ∧
      place memoryBlockSize splitOverhead size a bs = none) ∨
      ∃ block bs', findBlock mem size rounds p = some (some block) ∧ a ≤ block ∧
        place memoryBlockSize splitOverhead size a bs = some (block + memoryBlockSize, bs') ∧
        Chain (takeBlock mem size block) p a bs' ∧
        (∀ x, x < block → takeBlock mem size block x = mem x) ∧
        usedBytes bs' = usedBytes bs + (takeBlock mem size block block).size := by
  induction bs generalizing p a rounds with
  | nil =>
    obtain ⟨rounds, rfl⟩ := Nat.exists_eq_succ_of_ne_zero (Nat.ne_of_gt (Nat.zero_lt_of_lt hrounds))
    obtain rfl : p = 0 := h
    exact Or.inl ⟨rfl, rfl⟩
  | cons b bs ih =>
    obtain ⟨rounds, rfl⟩ := Nat.exists_eq_succ_of_ne_zero (Nat.ne_of_gt (Nat.zero_lt_of_lt hrounds))
    obtain rfl : p = a := h.1
    have hwhole := h
    obtain ⟨-, hbsize, hbfree, hrest⟩ := h
    unfold findBlock place
    rw [if_neg (Nat.ne_of_gt ha), hbsize, hbfree]
    by_cases hfit : b.free = true ∧ size ≤ b.size
    · rw [if_pos hfit, if_pos hfit]
      obtain ⟨hhead, hbefore⟩ := chain_takeBlock hwhole hend hfit.2
      refine Or.inr ⟨p, _, rfl, le_rfl, rfl, hhead, hbefore, ?_⟩
      by_cases hsplit : splitOverhead ≤ b.size - size
      · rw [if_pos hsplit] at hhead ⊢
        rw [hhead.2.1]
        simp only [usedBytes, hfit.1, if_true, Bool.false_eq_true, if_false]
        omega
      · rw [if_neg hsplit] at hhead ⊢
        rw [hhead.2.1]
        simp only [usedBytes, hfit.1, if_true, Bool.false_eq_true, if_false]
        omega
    · rw [if_neg hfit, if_neg hfit]
      unfold total at hend
      have hnext := ih hrest (by omega) (by omega) rounds (Nat.lt_of_succ_lt_succ hrounds)
      rcases hnext with ⟨hfind, hplace⟩ | ⟨block, bs', hfind, hle, hplace, hchain, hbefore, hused⟩
      · exact Or.inl ⟨hfind, by rw [hplace]; rfl⟩
      · have hself : takeBlock mem size block p = mem p := by
          apply hbefore
          unfold memoryBlockSize at hle
          omega
        refine Or.inr ⟨block, b :: bs', hfind, by omega, by rw [hplace]; rfl, .cons ?_ ?_ ?_, hbefore, ?_⟩
        · rw [hself, hbsize]
        · rw [hself, hbfree]
        · rw [hself]
          exact hchain
        · unfold usedBytes
          rw [hused]
          omega

theorem scanBlock_spec (block : Nat) (h : Chain mem p a bs) (ha : 0 < a)
    (rounds : Nat) (hrounds : bs.length < rounds) :
    (scanBlock mem block rounds p = some false ∧
      blockAt memoryBlockSize (block + memoryBlockSize) a bs = none) ∨
      scanBlock mem block rounds p = some true ∧
        blockAt memoryBlockSize (block + memoryBlockSize) a bs =
        some ⟨(mem block).size, (mem block).free⟩ := by
  induction bs generalizing p a rounds with
  | nil =>
    obtain ⟨rounds, rfl⟩ := Nat.exists_eq_succ_of_ne_zero (Nat.ne_of_gt (Nat.zero_lt_of_lt hrounds))
    obtain rfl : p = 0 := h
    exact Or.inl ⟨rfl, rfl⟩
  | cons b bs ih =>
    obtain ⟨rounds, rfl⟩ := Nat.exists_eq_succ_of_ne_zero (Nat.ne_of_gt (Nat.zero_lt_of_lt hrounds))
    obtain ⟨rfl, hbsize, hbfree, hrest⟩ := h
    unfold scanBlock blockAt
    rw [if_neg (Nat.ne_of_gt ha)]
    by_cases hself : p = block
    · subst hself
      rw [if_pos rfl, if_pos rfl, hbsize, hbfree]
      exact Or.inr ⟨rfl, rfl⟩
    · rw [if_neg hself, if_neg (by omega)]
      exact ih hrest (by omega) rounds (Nat.lt_of_succ_lt_succ hrounds)

theorem chain_release (block : Nat) (h : Chain mem p a bs) :
    Chain (Function.update mem block { mem block with free := true }) p a
      (release memoryBlockSize (block + memoryBlockSize) a bs) := by
  induction bs generalizing p a with
  | nil => exact h
  | cons b bs ih =>
    obtain ⟨rfl, hbsize, hbfree, hrest⟩ := h
    unfold release
    by_cases hself : p = block
    · subst hself
      rw [if_pos rfl]
      refine .cons ?_ ?_ ?_
      · rw [Function.update_self]
        exact hbsize
      · rw [Function.update_self]
      · rw [Function.update_self]
        refine hrest.congr fun x hx _ => Function.update_of_ne ?_ _ _
        unfold memoryBlockSize at hx
        omega
    · rw [if_neg (by omega)]
      refine .cons ?_ ?_ ?_
      · rw [Function.update_of_ne hself, hbsize]
      · rw [Function.update_of_ne hself, hbfree]
      · rw [Function.update_of_ne hself]
        exact ih hrest

theorem coalesceBlocksFrom_spec {a : Nat} {cur : HeapBlock}
    (h : Chain mem a a (cur :: bs)) (ha : 0 < a)
    (hend : a + total memoryBlockSize (cur :: bs) < 2 ^ 64) (rounds : Nat)
    (hrounds : bs.length < rounds) :
    ∃ mem', coalesceBlocksFrom rounds a mem = some mem' ∧
      Chain mem' a a (coalesceFrom memoryBlockSize cur bs) ∧
      ∀ x, x < a → mem' x = mem x := by
  induction bs generalizing mem a cur rounds with
  | nil =>
    obtain ⟨rounds, rfl⟩ := Nat.exists_eq_succ_of_ne_zero (Nat.ne_of_gt (Nat.zero_lt_of_lt hrounds))
    have hlast : (mem a).next = 0 := h.2.2.2
    refine ⟨mem, ?_, h, fun _ _ => rfl⟩
    unfold coalesceBlocksFrom
    rw [if_neg (fun hc => hc.2 hlast)]
  | cons b bs ih =>
    obtain ⟨rounds, rfl⟩ := Nat.exists_eq_succ_of_ne_zero (Nat.ne_of_gt (Nat.zero_lt_of_lt hrounds))
    obtain ⟨-, hcsize, hcfree, hnext, hbsize, hbfree, hrest⟩ := h
    have hpos : 0 < a + memoryBlockSize + cur.size := by omega
    unfold coalesceBlocksFrom coalesceFrom
    rw [if_pos ⟨Nat.ne_of_gt ha, by rw [hnext]; exact Nat.ne_of_gt hpos⟩]
    dsimp only
    rw [hnext, hcfree, hbfree]
    simp only [total] at hend
    by_cases hboth : cur.free = true ∧ b.free = true
    · rw [if_pos hboth, if_pos hboth, hcsize, hbsize]
      have hsum : (cur.size + (memoryBlockSize + b.size) % 2 ^ 64) % 2 ^ 64 =
          cur.size + memoryBlockSize + b.size := by
        omega
      rw [hsum]
      generalize hmem : Function.update mem a ⟨cur.size + memoryBlockSize + b.size, cur.free,
        (mem (a + memoryBlockSize + cur.size)).next⟩ = mem1
      have hat : mem1 a = ⟨cur.size + memoryBlockSize + b.size, cur.free, (mem (a + memoryBlockSize + cur.size)).next⟩ := by
        rw [← hmem, Function.update_self]
      have hother (x : Nat) (hx : x ≠ a) : mem1 x = mem x := by
        rw [← hmem, Function.update_of_ne hx]
      have hmerged : Chain mem1 a a (⟨cur.size + memoryBlockSize + b.size, true⟩ :: bs) := by
        refine .cons (by rw [hat]) (by rw [hat, hboth.1]) ?_
        rw [hat]
        dsimp only
        rw [show a + memoryBlockSize + (cur.size + memoryBlockSize + b.size) =
          a + memoryBlockSize + cur.size + memoryBlockSize + b.size by omega]
        refine hrest.congr fun x hx _ => hother x ?_
        unfold memoryBlockSize at hx
        omega
      obtain ⟨mem', hend', hchain, hbefore⟩ := ih hmerged ha (by simp only [total]; omega) rounds
        (Nat.lt_of_succ_lt_succ hrounds)
      refine ⟨mem', hend', hchain, fun x hx => ?_⟩
      rw [hbefore x hx, hother x (Nat.ne_of_lt hx)]
    · rw [if_neg hboth, if_neg hboth]
      have hstep := ih (⟨rfl, hbsize, hbfree, hrest⟩ : Chain mem _ _ (b :: bs)) hpos (by simp only [total]; omega) rounds
        (Nat.lt_of_succ_lt_succ hrounds)
      obtain ⟨mem', hmem, hchain, hbefore⟩ := hstep
      have hself : mem' a = mem a := by
        apply hbefore
        unfold memoryBlockSize
        omega
      refine ⟨mem', hmem, .cons ?_ ?_ ?_, fun x hx => hbefore x (by omega)⟩
      · rw [hself, hcsize]
      · rw [hself, hcfree]
      · rw [hself, hnext]
        exact hchain

/-- The blocks of the heap: the list from `memory_head` fills the heap, no block has less than 16
bytes, no two neighbours are free, and `g_memory_used` is what is not free. -/
structure HeapOk (h : Heap) (bs : List HeapBlock) : Prop where
  chain : Chain h.mem h.memoryHead h.kernelHeap bs
  fills : total memoryBlockSize bs = h.heapSize
  minSize : MinSize 16 bs
  noFreePair : NoFreePair bs
  used : h.used = usedBytes bs
  base : 0 < h.kernelHeap
  room : memoryBlockSize + 16 ≤ h.heapSize
  bound : h.kernelHeap + h.heapSize < 2 ^ 64

theorem length_le_total (bs : List HeapBlock) : bs.length ≤ total memoryBlockSize bs := by
  induction bs with
  | nil => exact Nat.le_refl 0
  | cons b bs ih =>
    unfold total memoryBlockSize
    unfold memoryBlockSize at ih
    rw [List.length_cons]
    omega

section

variable {h : Heap} {bs : List HeapBlock}

theorem HeapOk.length_lt (hok : HeapOk h bs) : bs.length < 2 ^ 64 := by
  have hlen := length_le_total bs
  have := hok.bound
  rw [hok.fills] at hlen
  omega

theorem HeapOk.end_lt (hok : HeapOk h bs) : h.kernelHeap + total memoryBlockSize bs < 2 ^ 64 := by
  rw [hok.fills]
  exact hok.bound

theorem fills_of_minSize (hok : HeapOk h bs) : Fills memoryBlockSize h.heapSize bs :=
  ⟨hok.fills, fun b hb => Nat.lt_of_lt_of_le (by decide) (hok.minSize b hb)⟩

theorem le_kmallocSize {size : Nat} (hpos : kmallocSize size ≠ 0) : 16 ≤ kmallocSize size := by
  unfold kmallocSize at *
  generalize hn : (if size = 0 then 1 else size) = n at hpos ⊢
  have hn' : 0 < n := by
    rw [← hn]
    split
    · omega
    · omega
  unfold alignUp at *
  split at hpos
  · exact absurd rfl hpos
  · next hle =>
    rw [if_neg hle]
    omega

theorem kmalloc_cases (hok : HeapOk h bs) (size : Nat) : (kmalloc size h = some (0, h) ∧
        (kmallocSize size = 0 ∨ kmallocSize size > h.heapSize ∨
          place memoryBlockSize splitOverhead (kmallocSize size) h.kernelHeap bs = none)) ∨
      ∃ p h' bs', kmalloc size h = some (p, h') ∧ p ≠ 0 ∧ kmallocSize size ≠ 0 ∧
        place memoryBlockSize splitOverhead (kmallocSize size) h.kernelHeap bs = some (p, bs') ∧
        HeapOk h' bs' ∧ h'.kernelHeap = h.kernelHeap ∧ h'.heapSize = h.heapSize := by
  unfold kmalloc
  dsimp only
  by_cases hsize : kmallocSize size = 0 ∨ kmallocSize size > h.heapSize
  · rw [if_pos hsize]
    refine Or.inl ⟨rfl, ?_⟩
    rcases hsize with hsize | hsize
    · exact Or.inl hsize
    · exact Or.inr (Or.inl hsize)
  · rw [if_neg hsize]
    obtain ⟨hne, -⟩ := not_or.mp hsize
    rcases findBlock_spec hok.chain hok.base hok.end_lt (2 ^ 64) hok.length_lt with
      ⟨hfind, hplace⟩ | ⟨block, bs', hfind, hle, hplace, hchain, -, hused⟩
    · rw [hfind]
      exact Or.inl ⟨rfl, Or.inr (Or.inr hplace)⟩
    · rw [hfind]
      have hfills := (fills_of_minSize hok).place (by decide) (Nat.pos_of_ne_zero hne) hplace
      have hbound := hok.bound
      have hlive : block + memoryBlockSize < 2 ^ 64 := by
        obtain ⟨-, m, hm⟩ := place_live (by decide) (by decide) hplace
        have := ((hm (block + memoryBlockSize) m).mpr (Or.inr ⟨rfl, rfl⟩)).add_le
        rw [hfills.1] at this
        omega
      have husedle : usedBytes bs' ≤ total memoryBlockSize bs' := usedBytes_le_total bs'
      rw [hfills.1] at husedle
      generalize hmem : takeBlock h.mem (kmallocSize size) block = mem at hchain hused
      generalize hmark : (h.used + (mem block).size) % 2 ^ 64 = used
      refine Or.inr ⟨block + memoryBlockSize, { h with
        mem := mem
        used := used
        highWater := if used > h.highWater then used else h.highWater
        allocs := (h.allocs + 1) % 2 ^ 32 }, bs', ?_, ?_, hne, hplace,
        ⟨hchain, hfills.1, hok.minSize.place (by decide) (le_kmallocSize hne) hplace, hok.noFreePair.place hplace, ?_,
          hok.base, hok.room, hok.bound⟩, rfl, rfl⟩
      · dsimp only
        rw [hmem, hmark, Nat.mod_eq_of_lt hlive]
      · unfold memoryBlockSize
        omega
      · dsimp only
        rw [← hmark, hok.used, ← hused, Nat.mod_eq_of_lt (by omega)]

theorem HeapOk.live_bounds (hok : HeapOk h bs) {p n : Nat}
    (hlive : Live memoryBlockSize h.kernelHeap bs p n) :
    h.kernelHeap + memoryBlockSize ≤ p ∧ p + n ≤ h.kernelHeap + h.heapSize ∧ 16 ≤ n := by
  obtain ⟨b, hb, rfl⟩ := hlive.mem
  have hend := hlive.add_le
  rw [hok.fills] at hend
  exact ⟨hlive.le, hend, hok.minSize b hb⟩

theorem coalesceBlocks_spec {head a : Nat} (hchain : Chain mem head a bs) (ha : 0 < a)
    (hend : a + total memoryBlockSize bs < 2 ^ 64) (hne : bs ≠ []) :
    ∃ mem', coalesceBlocks head mem = some mem' ∧
      Chain mem' head a (coalesce memoryBlockSize bs) := by
  cases bs with
  | nil => exact absurd rfl hne
  | cons b bs =>
    obtain rfl : head = a := hchain.1
    have hlen := length_le_total (b :: bs)
    rw [List.length_cons] at hlen
    obtain ⟨mem', hmem, hchain', -⟩ := coalesceBlocksFrom_spec hchain ha hend (2 ^ 64) (by omega)
    exact ⟨mem', hmem, hchain'⟩

theorem kfree_cases (hok : HeapOk h bs) (ptr : Nat) :
    (kfree ptr h = some h ∧ ∀ n, ¬ Live memoryBlockSize h.kernelHeap bs ptr n) ∨
      ∃ n h', Live memoryBlockSize h.kernelHeap bs ptr n ∧ kfree ptr h = some h' ∧
        HeapOk h' (coalesce memoryBlockSize (release memoryBlockSize ptr h.kernelHeap bs)) ∧
        h'.kernelHeap = h.kernelHeap ∧ h'.heapSize = h.heapSize := by
  have hbase := hok.base
  have hbound := hok.bound
  have hend : (h.kernelHeap + h.heapSize) % 2 ^ 64 = h.kernelHeap + h.heapSize :=
    Nat.mod_eq_of_lt hbound
  unfold kfree
  dsimp only
  rw [hend]
  by_cases hnull : ptr = 0
  · rw [if_pos hnull]
    refine Or.inl ⟨rfl, fun n hlive => ?_⟩
    have := hlive.le
    omega
  · rw [if_neg hnull]
    by_cases hrange : h.kernelHeap = 0 ∨ h.kernelHeap + h.heapSize < h.kernelHeap ∨
        ptr < (h.kernelHeap + memoryBlockSize) % 2 ^ 64 ∨ ptr ≥ h.kernelHeap + h.heapSize
    · rw [if_pos hrange]
      refine Or.inl ⟨rfl, fun n hlive => ?_⟩
      have := hok.live_bounds hlive
      rw [Nat.mod_eq_of_lt (by omega)] at hrange
      omega
    · rw [if_neg hrange]
      have hptr : h.kernelHeap + memoryBlockSize ≤ ptr ∧ ptr < h.kernelHeap + h.heapSize := by
        have hroom := hok.room
        rw [Nat.mod_eq_of_lt (by omega)] at hrange
        omega
      have hback : ptr - memoryBlockSize + memoryBlockSize = ptr := by omega
      rcases scanBlock_spec (ptr - memoryBlockSize) hok.chain hok.base (2 ^ 64) hok.length_lt with
        ⟨hscan, hnone⟩ | ⟨hscan, hsome⟩
      · rw [hscan]
        refine Or.inl ⟨rfl, fun n hlive => ?_⟩
        rw [hback, hlive.blockAt_eq (by decide)] at hnone
        cases hnone
      · rw [hscan]
        dsimp only
        rw [hback] at hsome
        have hdead {n : Nat} (hlive : Live memoryBlockSize h.kernelHeap bs ptr n) :
            (h.mem (ptr - memoryBlockSize)).size = n ∧ (h.mem (ptr - memoryBlockSize)).free = false := by
          rw [hlive.blockAt_eq (by decide), Option.some.injEq, HeapBlock.mk.injEq] at hsome
          exact ⟨hsome.1.symm, hsome.2.symm⟩
        by_cases hbig : (h.mem (ptr - memoryBlockSize)).size > h.kernelHeap + h.heapSize - ptr
        · rw [if_pos hbig]
          refine Or.inl ⟨rfl, fun n hlive => ?_⟩
          have := hok.live_bounds hlive
          rw [(hdead hlive).1] at hbig
          omega
        · rw [if_neg hbig]
          cases hfree : (h.mem (ptr - memoryBlockSize)).free with
          | true =>
            rw [if_pos rfl]
            refine Or.inl ⟨rfl, fun n hlive => ?_⟩
            rw [(hdead hlive).2] at hfree
            cases hfree
          | false =>
            rw [if_neg Bool.false_ne_true]
            rw [hfree] at hsome
            have hlive := live_of_blockAt hsome
            have hfills := (fills_of_minSize hok).release (a := h.kernelHeap) (p := ptr)
            have hchain := chain_release (ptr - memoryBlockSize) hok.chain
            rw [hback] at hchain
            have hne : release memoryBlockSize ptr h.kernelHeap bs ≠ [] := by
              intro hnil
              rw [hnil] at hfills
              have hzero : 0 = h.heapSize := hfills.1
              omega
            obtain ⟨mem', hmem, hchain'⟩ := coalesceBlocks_spec hchain hok.base (by rw [hfills.1]; exact hbound) hne
            have hused := usedBytes_release hsome rfl
            refine Or.inr ⟨_, { h with
              mem := mem'
              used := if h.used ≥ (h.mem (ptr - memoryBlockSize)).size then
                h.used - (h.mem (ptr - memoryBlockSize)).size else 0
              frees := (h.frees + 1) % 2 ^ 32 }, hlive, ?_, ?_, rfl, rfl⟩
            · rw [hmem]
            · refine ⟨hchain', hfills.coalesce.1, hok.minSize.release.coalesce,
                noFreePair_coalesce _, ?_, hok.base,
                hok.room, hok.bound⟩
              rw [usedBytes_coalesce]
              dsimp only at hused ⊢
              rw [hok.used, if_pos (by omega)]
              omega

def align16 (n : Nat) : Nat := (n + 15) / 16 * 16

theorem kmallocSize_cases (size : Nat) :
    (kmallocSize size = 0 ∧ 2 ^ 64 ≤ align16 size) ∨ (size = 0 ∧ kmallocSize size = 16) ∨
      kmallocSize size = align16 size := by
  unfold kmallocSize
  by_cases hzero : size = 0
  · subst hzero
    exact Or.inr (Or.inl ⟨rfl, rfl⟩)
  · rw [if_neg hzero]
    unfold alignUp align16
    split
    · next hbig =>
      refine Or.inl ⟨rfl, ?_⟩
      omega
    · exact Or.inr (Or.inr rfl)

theorem size_le_total {l : List HeapBlock} (hb : b ∈ l) : b.size ≤ total memoryBlockSize l := by
  induction l with
  | nil => cases hb
  | cons c l ih =>
    unfold total
    rcases List.mem_cons.mp hb with rfl | hb
    · omega
    · have := ih hb
      omega

theorem kmalloc_null_iff (hok : HeapOk h bs) (size : Nat) :
    ∃ p h', kmalloc size h = some (p, h') ∧
      (p = 0 ↔ ∀ b ∈ bs, b.free = true → b.size < align16 size) := by
  have hbound := hok.bound
  have hroom := hok.room
  have hle {b : HeapBlock} (hb : b ∈ bs) : b.size ≤ h.heapSize := by
    rw [← hok.fills]
    exact size_le_total hb
  rcases kmalloc_cases hok size with ⟨heq, hwhy⟩ | ⟨p, h', bs', heq, hp, hne, hplace, -, -, -⟩
  · refine ⟨0, h, heq, iff_of_true rfl fun b hb hfree => ?_⟩
    have hsize := hle hb
    have hmin := hok.minSize b hb
    rcases kmallocSize_cases size with ⟨-, hbig⟩ | ⟨-, h16⟩ | halign
    · omega
    · -- a request for nothing is one for 16 bytes, which every free block has
      rcases hwhy with hwhy | hwhy | hplace
      · omega
      · omega
      · exact absurd ⟨hfree, by rw [h16]; exact hmin⟩ (place_eq_none.mp hplace b hb)
    · rw [← halign]
      rcases hwhy with hwhy | hwhy | hplace
      · have hzero : size = 0 := by
          rw [hwhy] at halign
          unfold align16 at halign
          omega
        rw [hzero] at hwhy
        exact absurd hwhy (by decide)
      · omega
      · exact Nat.lt_of_not_le fun hle => place_eq_none.mp hplace b hb ⟨hfree, hle⟩
  · refine ⟨p, h', heq, iff_of_false hp fun hall => ?_⟩
    have hsome : ¬ ∀ b ∈ bs, ¬ (b.free = true ∧ kmallocSize size ≤ b.size) := by
      rw [← place_eq_none, hplace]
      exact fun hnone => nomatch hnone
    apply hsome
    rintro b hb ⟨hfree, hfit⟩
    have := hall b hb hfree
    rcases kmallocSize_cases size with ⟨hzero, -⟩ | ⟨rfl, -⟩ | halign
    · exact hne hzero
    · exact absurd this (Nat.not_lt_zero _)
    · omega

end

theorem heapOk_memoryInit {configuredBase configuredSize : Nat} (hbase : configuredBase < 2 ^ 64)
    (hsize : configuredSize < 2 ^ 64) (mem : Memory) :
    HeapOk (memoryInit configuredBase configuredSize mem)
      [⟨(heapRegion configuredBase configuredSize).2 - memoryBlockSize, true⟩] := by
  have hregion : 0 < (heapRegion configuredBase configuredSize).1 ∧
      memoryBlockSize + 16 ≤ (heapRegion configuredBase configuredSize).2 ∧
      (heapRegion configuredBase configuredSize).1 + (heapRegion configuredBase configuredSize).2 < 2 ^ 64 := by
    unfold heapRegion memoryBlockSize
    split
    · decide
    · next haccept =>
      dsimp only
      omega
  obtain ⟨hpos, hroom, hbound⟩ := hregion
  refine ⟨.cons ?_ ?_ ?_, ?_, ?_, ⟨fun _ c hc => (nomatch hc), trivial⟩, rfl, hpos, hroom, hbound⟩
  · unfold memoryInit
    dsimp only
    rw [Function.update_self]
  · unfold memoryInit
    dsimp only
    rw [Function.update_self]
  · unfold memoryInit
    dsimp only
    rw [Function.update_self]
    rfl
  · unfold memoryInit total total
    dsimp only
    omega
  · intro b hb
    rw [List.mem_singleton] at hb
    rw [hb]
    dsimp only
    omega

/-- The heap with the allocations that are live: what `kmalloc` has returned, with the sizes asked
for, and nobody has freed. -/
structure HeapLedger where
  heap : Heap
  handed : List (Nat × Nat)

/-- A call; `none` says that it does not return. -/
def ledgerStep (s : HeapLedger) : Call → Option HeapLedger
  | .kmalloc size => (kmalloc size.toNat s.heap).map fun r =>
      ⟨r.2, if r.1 = 0 then s.handed else (r.1, size.toNat) :: s.handed⟩
  | .kfree ptr => (kfree ptr.toNat s.heap).map fun h => ⟨h, s.handed.filter (·.1 ≠ ptr.toNat)⟩

/-- The live blocks are the allocations, each as large as asked for. -/
structure HandedOut (base : Nat) (bs : List HeapBlock) (handed : List (Nat × Nat)) : Prop where
  live : ∀ p, (∃ n, Live memoryBlockSize base bs p n) ↔ p ∈ handed.map Prod.fst
  nodup : (handed.map Prod.fst).Nodup
  room : ∀ r ∈ handed, ∃ n, align16 r.2 ≤ n ∧ Live memoryBlockSize base bs r.1 n

/-- An intact heap with the blocks `bs`: the list from `memory_head` tiles the region that
`memory_init` took, the allocations are apart and counted, and the next call behaves. -/
structure Intact (region : Nat × Nat) (s : HeapLedger) (bs : List HeapBlock) : Prop where
  region : (s.heap.kernelHeap, s.heap.heapSize) = region
  tiles : Chain s.heap.mem s.heap.memoryHead s.heap.kernelHeap bs ∧ total memoryBlockSize bs = s.heap.heapSize
  noFreePair : NoFreePair bs
  kept : HandedOut s.heap.kernelHeap bs s.handed
  inside : ∀ p n, Live memoryBlockSize s.heap.kernelHeap bs p n →
    s.heap.kernelHeap ≤ p ∧ p + n ≤ s.heap.kernelHeap + s.heap.heapSize
  disjoint : ∀ p n q m, Live memoryBlockSize s.heap.kernelHeap bs p n → Live memoryBlockSize s.heap.kernelHeap bs q m →
    p ≠ q → p + n ≤ q ∨ q + m ≤ p
  used : s.heap.used = usedBytes bs
  null : ∀ size : UInt64, ∃ p h', kmalloc size.toNat s.heap = some (p, h') ∧
    (p = 0 ↔ ∀ b ∈ bs, b.free = true → b.size < align16 size.toNat)
  foreign : ∀ ptr : UInt64, ∃ h', kfree ptr.toNat s.heap = some h' ∧
    (ptr.toNat ∉ s.handed.map Prod.fst → h' = s.heap)

theorem align16_le {size : Nat} (hne : kmallocSize size ≠ 0) : align16 size ≤ kmallocSize size := by
  rcases kmallocSize_cases size with ⟨hzero, -⟩ | ⟨rfl, -⟩ | halign
  · exact absurd hzero hne
  · exact Nat.zero_le _
  · exact halign.ge

section

variable {base : Nat} {bs bs' : List HeapBlock} {handed : List (Nat × Nat)} {p size : Nat}

theorem HandedOut.place (h : HandedOut base bs handed) (hne : kmallocSize size ≠ 0)
    (hplace : place memoryBlockSize splitOverhead (kmallocSize size) base bs = some (p, bs')) :
    HandedOut base bs' ((p, size) :: handed) := by
  obtain ⟨hnew, m, hm⟩ := place_live (by decide) (by decide) hplace
  obtain ⟨n, hn, hfits⟩ := place_fits hplace
  refine ⟨fun q => ?_, ?_, ?_⟩
  · rw [List.map_cons, List.mem_cons, ← h.live]
    constructor
    · rintro ⟨k, hk⟩
      rcases (hm q k).mp hk with hk | ⟨rfl, -⟩
      · exact .inr ⟨k, hk⟩
      · exact .inl rfl
    · rintro (rfl | ⟨k, hk⟩)
      · exact ⟨n, hfits⟩
      · exact ⟨k, (hm q k).mpr (.inl hk)⟩
  · rw [List.map_cons, List.nodup_cons, ← h.live]
    exact ⟨fun ⟨k, hk⟩ => hnew k hk, h.nodup⟩
  · intro r hr
    rcases List.mem_cons.mp hr with rfl | hr
    · exact ⟨n, (align16_le hne).trans hn, hfits⟩
    · obtain ⟨k, hk, hlive⟩ := h.room r hr
      exact ⟨k, hk, (hm r.1 k).mpr (.inl hlive)⟩

theorem HandedOut.release (h : HandedOut base bs handed) (p : Nat) :
    HandedOut base (coalesce memoryBlockSize (release memoryBlockSize p base bs))
      (handed.filter (·.1 ≠ p)) := by
  have hlive (q n : Nat) : Live memoryBlockSize base (coalesce memoryBlockSize (HeapBlock.release memoryBlockSize p base bs)) q n ↔
      Live memoryBlockSize base bs q n ∧ q ≠ p := (coalesce_live _ q n).trans (release_live (by decide) _ q n)
  refine ⟨fun q => ?_, h.nodup.sublist (List.filter_sublist.map _), ?_⟩
  · simp only [hlive, exists_and_right, h.live, List.mem_map, List.mem_filter, decide_eq_true_eq]
    constructor
    · rintro ⟨⟨r, hr, rfl⟩, hne⟩
      exact ⟨r, ⟨hr, hne⟩, rfl⟩
    · rintro ⟨r, ⟨hr, hne⟩, rfl⟩
      exact ⟨⟨r, hr, rfl⟩, hne⟩
  · intro r hr
    obtain ⟨hr, hne⟩ := List.mem_filter.mp hr
    obtain ⟨n, hn, hr⟩ := h.room r hr
    exact ⟨n, hn, (hlive r.1 n).mpr ⟨hr, of_decide_eq_true hne⟩⟩

theorem HandedOut.same (h : HandedOut base bs handed)
    (hdead : ∀ n, ¬ Live memoryBlockSize base bs p n) :
    handed.filter (·.1 ≠ p) = handed := by
  refine List.filter_eq_self.mpr fun r hr => decide_eq_true ?_
  rintro rfl
  obtain ⟨n, -, hn⟩ := h.room r hr
  exact hdead n hn

end

theorem heapOk_step (region : Nat × Nat) (s : HeapLedger) (c : Call) (t : HeapLedger)
    (hok : (s.heap.kernelHeap, s.heap.heapSize) = region ∧ ∃ bs, HeapOk s.heap bs ∧
      HandedOut s.heap.kernelHeap bs s.handed)
    (hstep : ledgerStep s c = some t) :
    (t.heap.kernelHeap, t.heap.heapSize) = region ∧ ∃ bs, HeapOk t.heap bs ∧
      HandedOut t.heap.kernelHeap bs t.handed := by
  obtain ⟨hregion, bs, hok, hkept⟩ := hok
  cases c with
  | kmalloc size =>
    obtain ⟨r, hm, rfl⟩ := Option.map_eq_some_iff.mp hstep
    rcases kmalloc_cases hok size.toNat with ⟨heq, -⟩ | ⟨p, h', bs', heq, hp, hne, hplace, hok', hbase, hsize⟩
    · rw [heq] at hm
      obtain rfl := Option.some.inj hm
      exact ⟨hregion, bs, hok, hkept⟩
    · rw [heq] at hm
      obtain rfl := Option.some.inj hm
      dsimp only
      rw [if_neg hp, hbase, hsize]
      exact ⟨hregion, bs', hok', hkept.place hne hplace⟩
  | kfree ptr =>
    obtain ⟨h', hf, rfl⟩ := Option.map_eq_some_iff.mp hstep
    rcases kfree_cases hok ptr.toNat with ⟨heq, hdead⟩ | ⟨n, t, -, heq, hok', hbase, hsize⟩
    · rw [heq] at hf
      obtain rfl := Option.some.inj hf
      dsimp only
      rw [hkept.same hdead]
      exact ⟨hregion, bs, hok, hkept⟩
    · rw [heq] at hf
      obtain rfl := Option.some.inj hf
      dsimp only
      rw [hbase, hsize]
      exact ⟨hregion, _, hok', hkept.release _⟩

/-! ## The two heaps -/

section

variable {k : KernelHeap} {h : Heap}

/-- The heap on a list of blocks stands for the heap in memory. -/
structure StandsFor (k : KernelHeap) (h : Heap) : Prop where
  base : k.base = h.kernelHeap
  size : k.size = h.heapSize
  ok : HeapOk h k.blocks

/-- `kmalloc` in memory is `kmalloc` on the list. -/
theorem StandsFor.kmalloc (hk : StandsFor k h) (size : Nat) :
    (Model.kmalloc k size = none ∧ Model.MemoryHeap.kmalloc size h = some (0, h)) ∨
      ∃ p k' h', p ≠ 0 ∧ Model.kmalloc k size = some (p, k') ∧
        Model.MemoryHeap.kmalloc size h = some (p, h') ∧ StandsFor k' h' := by
  obtain ⟨base, len, blocks, fills⟩ := k
  obtain ⟨rfl, rfl, hok⟩ := hk
  unfold Model.kmalloc
  dsimp only at hok ⊢
  rcases kmalloc_cases hok size with ⟨hm, hnone⟩ | ⟨p, h', bs', hm, hp, hne, hplace, hok', hbase, hsize⟩
  · refine .inl ⟨?_, hm⟩
    split
    · rfl
    · next hfits =>
      rcases hnone with hzero | hlarge | hnone
      · exact absurd (.inl hzero) hfits
      · exact absurd (.inr hlarge) hfits
      · split
        · rfl
        · next hplace =>
          rw [hnone] at hplace
          cases hplace
  · have hfits : ¬ (kmallocSize size = 0 ∨ kmallocSize size > h.heapSize) := by
      obtain ⟨m, hm, hlive⟩ := place_fits hplace
      have hbounds := hok'.live_bounds (hbase ▸ hlive)
      omega
    refine .inr ⟨p, ⟨h.kernelHeap, h.heapSize, bs', hsize ▸ fills_of_minSize hok'⟩, h', hp, ?_, hm, hbase.symm, hsize.symm, hok'⟩
    rw [dif_neg hfits]
    split
    · next hnone =>
      rw [hplace] at hnone
      cases hnone
    · next hplace' =>
      obtain ⟨rfl, rfl⟩ := Prod.mk.inj (Option.some.inj (hplace.symm.trans hplace'))
      rfl

/-- What is not live is not freed. -/
theorem kfree_of_dead {p : Nat} (hdead : ∀ n, ¬ Live memoryBlockSize k.base k.blocks p n) : Model.kfree k p = k := by
  unfold Model.kfree
  split
  · rfl
  · split
    · rfl
    · next b hb =>
      refine if_pos (.inr ?_)
      cases hfree : b.free with
      | true => rfl
      | false =>
        obtain ⟨size, free⟩ := b
        obtain rfl : free = false := hfree
        exact absurd (live_of_blockAt hb) (hdead size)

/-- `kfree` in memory is `kfree` on the list. -/
theorem StandsFor.kfree (hk : StandsFor k h) (p : Nat) :
    ∃ h', Model.MemoryHeap.kfree p h = some h' ∧ StandsFor (Model.kfree k p) h' := by
  obtain ⟨base, len, blocks, fills⟩ := k
  obtain ⟨rfl, rfl, hok⟩ := hk
  dsimp only at hok
  rcases kfree_cases hok p with ⟨hf, hdead⟩ | ⟨n, h', hlive, hf, hok', hbase, hsize⟩
  · refine ⟨h, hf, ?_⟩
    rw [kfree_of_dead hdead]
    exact ⟨rfl, rfl, hok⟩
  · refine ⟨h', hf, ?_⟩
    have hbounds := hok.live_bounds hlive
    have hrange : ¬ (p < h.kernelHeap + memoryBlockSize ∨ h.kernelHeap + h.heapSize ≤ p) := by omega
    have hblock : ¬ (n > h.kernelHeap + h.heapSize - p ∨ false = true) := by
      rintro (hlarge | hfree)
      · omega
      · cases hfree
    unfold Model.kfree
    rw [if_neg hrange, hlive.blockAt_eq (by decide)]
    dsimp only
    rw [if_neg hblock]
    exact ⟨hbase.symm, hsize.symm, hok'⟩

/-- A call on the list. -/
def heapCall (k : KernelHeap) : Call → KernelHeap
  | .kmalloc size => ((Model.kmalloc k size.toNat).map Prod.snd).getD k
  | .kfree ptr => Model.kfree k ptr.toNat

/-- Every run of calls in memory is one on the list. -/
theorem StandsFor.run {s t : HeapLedger} {cs : List Call} (hrun : Run ledgerStep s cs t) (hk : StandsFor k s.heap) :
    StandsFor (cs.foldl heapCall k) t.heap := by
  induction hrun generalizing k with
  | nil => exact hk
  | @cons s _ _ c _ hstep _ ih =>
    refine ih ?_
    cases c with
    | kmalloc size =>
      obtain ⟨r, hr, rfl⟩ := Option.map_eq_some_iff.mp hstep
      rcases hk.kmalloc size.toNat with ⟨hnone, hm⟩ | ⟨p, k', h', -, hsome, hm, hk'⟩
      · obtain rfl := Option.some.inj (hm.symm.trans hr)
        simpa [heapCall, hnone] using hk
      · obtain rfl := Option.some.inj (hm.symm.trans hr)
        simpa [heapCall, hsome] using hk'
    | kfree ptr =>
      obtain ⟨h', hf, hk'⟩ := hk.kfree ptr.toNat
      obtain ⟨r, hr, rfl⟩ := Option.map_eq_some_iff.mp hstep
      obtain rfl := Option.some.inj (hf.symm.trans hr)
      exact hk'

/-- The heap of `memory_init`, on a list of one free block. -/
theorem standsFor_memoryInit (configuredBase configuredSize : UInt64) (mem : Memory) :
    ∃ k, StandsFor k (memoryInit configuredBase.toNat configuredSize.toNat mem) :=
  have hok := heapOk_memoryInit configuredBase.toNat_lt configuredSize.toNat_lt mem
  ⟨⟨_, _, _, fills_of_minSize hok⟩, rfl, rfl, hok⟩

end

/-- After every sequence of calls, with pointers from anywhere, the heap is intact and what it holds
is what the calls have been given and have not given back. -/
theorem heapIntegrity_run (configuredBase configuredSize : UInt64) (mem : Memory) (cs : List Call)
    (s : HeapLedger) (hrun : Run ledgerStep ⟨memoryInit configuredBase.toNat configuredSize.toNat mem, []⟩ cs s) :
    ∃ bs, Intact (heapRegion configuredBase.toNat configuredSize.toNat) s bs := by
  obtain ⟨hregion, bs, hok, hkept⟩ := hrun.invariant
    (heapOk_step (heapRegion configuredBase.toNat configuredSize.toNat))
    ⟨rfl, _, heapOk_memoryInit configuredBase.toNat_lt configuredSize.toNat_lt mem,
      fun p => by simp [Live], List.nodup_nil, fun _ hr => absurd hr List.not_mem_nil⟩
  refine ⟨bs, hregion, ⟨hok.chain, hok.fills⟩, hok.noFreePair, hkept, fun p n hp => ?_,
    fun p n q m hp hq hne => ?_, hok.used,
    fun size => kmalloc_null_iff hok size.toNat, fun ptr => ?_⟩
  · have := hok.live_bounds hp
    omega
  · rcases Nat.lt_or_gt_of_ne hne with hlt | hlt
    · have := hp.apart hq hlt
      omega
    · have := hq.apart hp hlt
      omega
  · rcases kfree_cases hok ptr.toNat with ⟨heq, -⟩ | ⟨n, h', hlive, heq, -⟩
    · exact ⟨_, heq, fun _ => rfl⟩
    · exact ⟨h', heq, fun hdead => absurd ((hkept.live _).mp ⟨n, hlive⟩) hdead⟩

/-- Two allocations, a foreign pointer and the first allocation given back. -/
theorem heapIntegrity_run_two : ∃ bs s, Run ledgerStep ⟨memoryInit 0x100000 0x10000 fun _ => {}, []⟩
    [.kmalloc 40, .kmalloc 1, .kfree 5, .kfree 0x100018] s ∧ Intact (0x100000, 0x10000) s bs ∧
      s.handed = [(0x100060, 1)] := by
  have hhanded : ([.kmalloc 40, .kmalloc 1, .kfree 5, .kfree 0x100018].foldlM ledgerStep
      ⟨memoryInit 0x100000 0x10000 fun _ => {}, []⟩).map HeapLedger.handed = some [(0x100060, 1)] := by decide +kernel
  obtain ⟨s, hs, hhanded⟩ := Option.map_eq_some_iff.mp hhanded
  have hrun := Run.of_foldlM hs
  obtain ⟨bs, hintact⟩ := heapIntegrity_run 0x100000 0x10000 (fun _ => {}) _ s hrun
  exact ⟨bs, s, hrun, hintact, hhanded⟩

end Monios.Analysis
