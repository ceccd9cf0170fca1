import Monios.Analysis.AddressSpaces
import Monios.Analysis.ProcessSlots
import Monios.Model.ForkMemory

/-!
# Forks that fail

Whether a fork that returns -1 leaves everything as it was. `vm_create_address_space` takes its own
steps back, but `sys_fork` does not: from the moment a slot has been claimed, no failure gives its
bit back, and the pages that have been shared stay so.
-/

set_option autoImplicit false

namespace Monios.Analysis.ForkFailure

open Monios.Library.Bitmap Monios.Model Monios.Model.ProcTable Monios.Model.ForkMemory

variable {fr fr' : FramePool} {n : Nat} {i : Fin 64}

variable (s : Vm)

/-- The process table with the address spaces of its entries, the bitmaps of the slots, of the
frames and of the chunks, and the tables of the parent are as before. -/
structure Unchanged (s s' : ForkState) : Prop where
  pcbs : s'.table.pcbs = s.table.pcbs
  spaces : s'.vm.spaces = s.vm.spaces
  pool : s'.table.pool.map = s.table.pool.map
  frames : ∀ n, n < frameTotalCount → s'.vm.frames.used n = s.vm.frames.used n
  chunks : ∀ c, c < vmUserChunkCount → s'.vm.userChunks c = s.vm.userChunks c
  tables : ∀ parent : Fin 64, ProcTable.pcbGetCurrent s.table = some parent → ∀ level page,
    TableAt s.vm.mem (s.vm.spaces parent).pml4Phys level page → s'.vm.mem page = s.vm.mem page

/-- A state is unchanged from itself. -/
theorem Unchanged.refl (s : ForkState) : Unchanged s s :=
  ⟨rfl, rfl, rfl, fun _ _ => rfl, fun _ _ => rfl, fun _ _ _ _ _ => rfl⟩

def AtomicOnFailure (kernel : KernelTables) (frame : Option SyscallFrame) (stackOk : Bool)
    (s : ForkState) : Prop :=
  (ForkMemory.sysFork kernel frame stackOk s).1 = -1 → Unchanged s (ForkMemory.sysFork kernel frame stackOk s).2

def NoSlot (t : Table) : Prop :=
  (∀ i, t.pool.map i = true) ∧ ∀ i, (t.pcbs i).used = true → (t.pcbs i).state = .running

def Refused (frame : Option SyscallFrame) (t : Table) : Prop :=
  ProcTable.pcbGetCurrent t = none ∨ frame = none ∨ NoSlot t

def usedFrames (fr : FramePool) : Nat := popcount fun i : Fin frameTotalCount => fr.used i

def Room (s : Vm) : Prop := usedFrames s.frames + 3 ≤ frameTotalCount ∧ ∃ c, c < vmUserChunkCount ∧ s.userChunks c = false

def Succeeds (stackOk : Bool) (s : ForkState) : Prop :=
  Room s.vm ∧ stackOk = true ∧ signed s.table.nextPid ≠ -1

structure Takes (fr fr' : FramePool) (n : Nat) : Prop where
  lt : n < frameTotalCount
  free : fr.used n = false
  used : fr'.used = Function.update fr.used n true

/-- Taking a frame counts one more. -/
theorem Takes.usedFrames (h : Takes fr fr' n) : usedFrames fr' = usedFrames fr + 1 := by
  have hbits : (fun i : Fin frameTotalCount => fr'.used i) =
      Function.update (fun i : Fin frameTotalCount => fr.used i) ⟨n, h.lt⟩ true := by
    funext i
    rw [h.used]
    by_cases hi : i = ⟨n, h.lt⟩
    · rw [hi, Function.update_self, Function.update_self]
    · have hne : (i : Nat) ≠ n := fun heq => hi (Fin.ext heq)
      rw [Function.update_of_ne hne, Function.update_of_ne hi]
  unfold ForkFailure.usedFrames
  rw [hbits]
  exact popcount_set (f := fun i : Fin frameTotalCount => fr.used i) (i := ⟨n, h.lt⟩) h.free

/-- The frame taken is in use. -/
theorem Takes.self (h : Takes fr fr' n) : fr'.used n = true := by
  rw [h.used, Function.update_self]

/-- The frame taken was not in use. -/
theorem Takes.ne {n m : Nat} (h : Takes fr fr' n) (hm : fr.used m = true) : m ≠ n := by
  rintro rfl
  rw [h.free] at hm
  exact Bool.false_ne_true hm

/-- Frames in use stay in use. -/
theorem Takes.kept {n m : Nat} (h : Takes fr fr' n) (hm : fr.used m = true) :
    fr'.used m = true := by
  rw [h.used, Function.update_of_ne (h.ne hm), hm]

/-- Giving the frame back restores the bitmap. -/
theorem Takes.back (h : Takes fr fr' n) : Function.update fr'.used n false = fr.used := by
  rw [h.used, Function.update_idem, ← h.free, Function.update_eq_self]

/-- A full bitmap counts all frames. -/
theorem usedFrames_full {fr : FramePool} (hfull : ∀ n, n < frameTotalCount → fr.used n = true) :
    usedFrames fr = frameTotalCount := by
  unfold usedFrames popcount
  rw [Finset.filter_true_of_mem fun (i : Fin frameTotalCount) _ => hfull i i.isLt,
    Finset.card_univ, Fintype.card_fin]

/-- `frame_alloc` fails on a full pool only, and otherwise takes one frame. -/
theorem frameAlloc_cases : (usedFrames s.frames = frameTotalCount ∧ s.frameAlloc = (none, s)) ∨
      ∃ n fr, Takes s.frames fr n ∧
      s.frameAlloc = (some (frameBasePhys + n), { s with frames := fr }) := by
  unfold Vm.frameAlloc FramePool.alloc
  cases hfind : (bitmapFindRunZero s.frames.used s.frames.cursor).or (bitmapFindRunZero s.frames.used 0) with
  | none =>
    refine Or.inl ⟨usedFrames_full ?_, rfl⟩
    intro n hn
    have hzero := (Option.or_eq_none_iff.mp hfind).2
    unfold bitmapFindRunZero at hzero
    have := List.find?_eq_none.mp hzero n (by rw [List.mem_range'_1]; omega)
    simpa using this
  | some n =>
    have hmem : n < frameTotalCount ∧ s.frames.used n = false := by
      have hone (start : Nat) (h : bitmapFindRunZero s.frames.used start = some n) :
          n < frameTotalCount ∧ s.frames.used n = false := by
        unfold bitmapFindRunZero at h
        have hin := List.mem_of_find?_eq_some h
        have hbit := List.find?_some h
        rw [List.mem_range'_1] at hin
        exact ⟨by omega, by simpa using hbit⟩
      rcases Option.or_eq_some_iff.mp hfind with h | ⟨-, h⟩
      · exact hone _ h
      · exact hone _ h
    refine Or.inr ⟨n, _, ⟨hmem.1, hmem.2, ?_⟩, rfl⟩
    funext j
    by_cases hj : j = n
    · rw [hj, Function.update_self]
      exact if_pos rfl
    · rw [Function.update_of_ne hj]
      exact if_neg hj

/-- `frame_free` clears the bit of the frame. -/
theorem frameFree_used {s : Vm} (hn : n < frameTotalCount) :
    s.frameFree (frameBasePhys + n) =
      { s with frames := { s.frames with used := Function.update s.frames.used n false } } := by
  unfold Vm.frameFree FramePool.free
  rw [if_pos (by omega), Nat.add_sub_cancel_left]
  congr 2
  funext j
  by_cases hj : j = n
  · rw [hj, Function.update_self]
    exact if_pos rfl
  · rw [Function.update_of_ne hj]
    exact if_neg hj

structure Restored (s s' : Vm) : Prop where
  used : s'.frames.used = s.frames.used
  chunks : s'.userChunks = s.userChunks
  mem : s'.mem = s.mem
  spaces : s'.spaces = s.spaces

/-- A chunk is refused only when all are taken. -/
theorem vmAllocUserChunk_spec :
    ((∀ c, c < vmUserChunkCount → s.userChunks c = true) ∧ vmAllocUserChunk s = (none, s)) ∨
      ∃ c chunks, c < vmUserChunkCount ∧ s.userChunks c = false ∧
      vmAllocUserChunk s = (some c, { s with userChunks := chunks }) := by
  unfold vmAllocUserChunk
  cases hfind : (List.range vmUserChunkCount).find? fun c => !s.userChunks c with
  | none =>
    refine Or.inl ⟨?_, rfl⟩
    intro c hc
    have := List.find?_eq_none.mp hfind c (List.mem_range.mpr hc)
    simpa using this
  | some c =>
    have hbit := List.find?_some hfind
    exact Or.inr ⟨c, _, List.mem_range.mp (List.mem_of_find?_eq_some hfind), by simpa using hbit,
      rfl⟩

/-- An address space is made when there is room for it, and takes at least a frame. -/
theorem vmCreateAddressSpace_cases (kernel : KernelTables) (s : Vm) (out : Nat) :
    (Room s ∧ ∃ s' n, vmCreateAddressSpace kernel s out = (true, s') ∧ n < frameTotalCount ∧
        s.frames.used n = false ∧ s'.frames.used n = true) ∨
      (¬ Room s ∧ ∃ s', vmCreateAddressSpace kernel s out = (false, s') ∧
        Restored (s.setSpace out {}) s') := by
  unfold vmCreateAddressSpace
  have hroom : Room s ↔ Room (s.setSpace out {}) := Iff.rfl
  have hframes : s.frames.used = (s.setSpace out {}).frames.used := rfl
  rw [hroom, hframes]
  generalize s.setSpace out {} = t
  dsimp only
  -- the more frames are taken, the fewer are left
  rcases frameAlloc_cases t with ⟨hfull, h1⟩ | ⟨n1, fr1, t1, h1⟩
  · refine Or.inr ⟨fun h => ?_, t, ?_, rfl, rfl, rfl, rfl⟩
    · have := h.1
      omega
    · rw [h1]
      dsimp only
      rw [h1]
      dsimp only
      rw [h1]
      rfl
  have c1 := t1.usedFrames
  rw [h1]
  dsimp only
  rcases frameAlloc_cases { t with frames := fr1 } with ⟨hfull, h2⟩ | ⟨n2, fr2, t2, h2⟩
  · refine Or.inr ⟨fun h => ?_, { t with frames := { fr1 with used := Function.update fr1.used n1 false } }, ?_,
      t1.back, rfl, rfl, rfl⟩
    · have := h.1
      dsimp only at hfull
      omega
    · rw [h2]
      dsimp only
      rw [h2]
      dsimp only [Vm.frameFreeSome]
      rw [frameFree_used t1.lt]
  have c2 := t2.usedFrames
  have hne := t2.ne t1.self
  rw [h2]
  dsimp only at c2 ⊢
  rcases frameAlloc_cases { t with frames := fr2 } with ⟨hfull, h3⟩ | ⟨n3, fr3, t3, h3⟩
  · refine Or.inr ⟨fun h => ?_, { t with frames :=
      { fr2 with used := Function.update (Function.update fr2.used n1 false) n2 false } }, ?_, ?_, rfl, rfl, rfl⟩
    · have := h.1
      dsimp only at hfull
      omega
    · rw [h3]
      dsimp only [Vm.frameFreeSome]
      rw [frameFree_used t1.lt, frameFree_used t2.lt]
    · dsimp only
      rw [Function.update_comm hne, t2.back, t1.back]
  have c3 := t3.usedFrames
  rw [h3]
  dsimp only at c3 ⊢
  rcases vmAllocUserChunk_spec { t with frames := fr3 } with ⟨hfull, h4⟩ | ⟨c, chunks, hc, hfree4, h4⟩
  · refine Or.inr ⟨fun h => ?_, { t with frames := { fr3 with
      used := Function.update (Function.update (Function.update fr3.used n1 false) n2 false) n3 false } }, ?_, ?_, rfl, rfl, rfl⟩
    · obtain ⟨-, c, hc, hfree⟩ := h
      rw [hfull c hc] at hfree
      exact Bool.false_ne_true hfree.symm
    · rw [h4]
      dsimp only
      rw [frameFree_used t1.lt, frameFree_used t2.lt, frameFree_used t3.lt]
    · dsimp only
      rw [Function.update_comm (t3.ne t2.self), Function.update_comm (t3.ne (t2.kept t1.self)),
        t3.back,
        Function.update_comm hne, t2.back, t1.back]
  · rw [h4]
    refine Or.inl ⟨⟨?_, c, hc, hfree4⟩, _, n1, rfl, t1.lt, t1.free, t3.kept (t2.kept t1.self)⟩
    have := popcount_le_card fun i : Fin frameTotalCount => fr3.used i
    rw [Fintype.card_fin] at this
    unfold usedFrames at *
    omega

def Kept (s s' : Vm) : Prop := ∀ n, s.frames.used n = true → s'.frames.used n = true

/-- Frames in use are kept by doing nothing. -/
theorem Kept.refl : Kept s s := fun _ h => h

/-- Keeping the frames in use is transitive. -/
theorem Kept.trans {s s' s'' : Vm} (h : Kept s s') (h' : Kept s' s'') : Kept s s'' :=
  fun n hn => h' n (h n hn)

/-- The same pool keeps its frames. -/
theorem kept_of_frames {s s' : Vm} (h : s'.frames = s.frames) : Kept s s' := by
  intro n hn
  rw [h]
  exact hn

/-- An allocation keeps the frames in use. -/
theorem kept_frameAlloc : Kept s s.frameAlloc.2 := by
  rcases frameAlloc_cases s with ⟨-, h⟩ | ⟨n, fr, ht, h⟩
  · rw [h]
    exact .refl s
  · rw [h]
    exact fun m hm => ht.kept hm

/-- `vm_ensure_table` keeps the frames in use. -/
theorem kept_vmEnsureTable (i table idx : Nat) : Kept s (vmEnsureTable s i table idx).2 := by
  unfold vmEnsureTable
  dsimp only
  split
  · exact .refl s
  · have halloc := kept_frameAlloc s
    split
    · next s' heq =>
      rw [heq] at halloc
      exact halloc
    · next page s' heq =>
      rw [heq] at halloc
      exact halloc.trans (kept_of_frames (vmTrackPageTable_frames _ i page))

/-- The walk that allocates keeps the frames in use. -/
theorem kept_vmWalkAlloc (i vaddr : Nat) : Kept s (vmWalkAlloc s i vaddr).2 := by
  unfold vmWalkAlloc
  dsimp only
  split
  · exact .refl s
  · have hpd := kept_vmEnsureTable s i (s.mem (s.spaces i).pml4Phys (pml4Idx vaddr)).frame (pdptIdx vaddr)
    split
    · next s' heq =>
      rw [heq] at hpd
      exact hpd
    · next pdpte s' heq =>
      rw [heq] at hpd
      have hpt := kept_vmEnsureTable s' i pdpte.frame (pdIdx vaddr)
      split
      · next s'' heq' =>
        rw [heq'] at hpt
        exact hpd.trans hpt
      · next pde s'' heq' =>
        rw [heq'] at hpt
        split
        · exact hpd.trans hpt
        · exact hpd.trans hpt

/-- Mapping a page keeps the frames in use. -/
theorem kept_vmMapPage (i vaddr page : Nat) (flags : PageFlags) :
    Kept s (vmMapPage s i vaddr page flags).2 := by
  unfold vmMapPage
  split
  · exact .refl s
  · have hwalk := kept_vmWalkAlloc s i vaddr
    split
    · next s' heq =>
      rw [heq] at hwalk
      exact hwalk
    · next pt s' heq =>
      rw [heq] at hwalk
      exact hwalk.trans (kept_of_frames (vmRecordDemand_frames _ i _))

/-- Sharing a demand page keeps the frames in use. -/
theorem kept_vmCowShareDemand (parent child vpage : Nat) :
    Kept s (vmCowShareDemand s parent child vpage) := by
  unfold vmCowShareDemand
  dsimp only
  split
  · exact .refl s
  · have hwalk := kept_vmWalkAlloc s child vpage
    split
    · next s' heq =>
      rw [heq] at hwalk
      exact hwalk
    · next pt s' heq =>
      rw [heq] at hwalk
      exact hwalk.trans (kept_of_frames (vmRecordDemand_frames _ child vpage))

/-- A round of the sharing keeps the frames in use. -/
theorem kept_shareRound (parent child : Nat) (s : Vm) (n : Nat) :
    Kept s (match (s.spaces parent).demandPages[n]? with
      | some vpage => vmCowShareDemand s parent child vpage
      | none => s) := by
  split
  · exact kept_vmCowShareDemand s parent child _
  · exact .refl s

/-- Rounds that keep the frames in use keep them together. -/
theorem kept_foldl {α : Type} {f : Vm → α → Vm} (hf : ∀ s x, Kept s (f s x)) (l : List α) (s : Vm) :
    Kept s (l.foldl f s) := by
  induction l generalizing s with
  | nil => exact .refl s
  | cons x l ih => exact (hf s x).trans (ih _)

/-- Freeing a chunk keeps the frames in use. -/
theorem kept_vmFreeUserChunk (userPhys : Nat) : Kept s (vmFreeUserChunk s userPhys) := by
  unfold vmFreeUserChunk
  split
  · exact fun _ h => h
  · exact .refl s

/-- Sharing an address space keeps the frames in use. -/
theorem kept_vmCowShare (parent child : Nat) : Kept s (vmCowShare s parent child).2 := by
  unfold vmCowShare
  split
  · exact .refl s
  · split
    · next parentPd0 childPd0 _ _ =>
      dsimp only
      have hfree := kept_vmFreeUserChunk s (s.spaces child).userPhysBase
      generalize vmFreeUserChunk s (s.spaces child).userPhysBase = s1 at hfree ⊢
      have hloop := kept_foldl (kept_shareRound parent child) (List.range vmDemandMaxPages)
        (vmCowShareWindow (s1.setSpace child { s1.spaces child with userPhysBase := (s1.spaces parent).userPhysBase })
          parentPd0 childPd0)
      generalize List.foldl _ _ _ = s2 at hloop ⊢
      exact fun n hn => hloop n (hfree n hn)
    · exact .refl s

/-- Copying the demand pages keeps the frames in use. -/
theorem kept_vmCopyDemandPages (dst src n i : Nat) (s : Vm) :
    Kept s (vmCopyDemandPages dst src n i s) := by
  induction n generalizing i s with
  | zero => exact .refl s
  | succ n ih =>
    unfold vmCopyDemandPages
    split
    · exact .refl s
    · next vpage _ =>
      dsimp only
      split
      · exact ih (i + 1) s
      · rcases frameAlloc_cases s with ⟨-, h⟩ | ⟨m, fr, ht, h⟩
        · rw [h]
          exact .refl s
        · rw [h]
          dsimp only
          have htaken : Kept s { s with frames := fr } := fun k hk => ht.kept hk
          split
          · next s' heq =>
            have hmap := kept_vmMapPage (({ s with frames := fr } : Vm).setPage (frameBasePhys + m)
              (s.mem (vmGetMapping s src vpage))) dst vpage (frameBasePhys + m) { present := true, writable := true, user := true }
            rw [heq] at hmap
            exact htaken.trans (Kept.trans (fun k hk => hmap k hk) (ih (i + 1) s'))
          · next s' heq =>
            have hmap := kept_vmMapPage (({ s with frames := fr } : Vm).setPage (frameBasePhys + m)
              (s.mem (vmGetMapping s src vpage))) dst vpage (frameBasePhys + m) { present := true, writable := true, user := true }
            rw [heq] at hmap
            rw [frameFree_used ht.lt]
            intro k hk
            dsimp only
            rw [Function.update_of_ne (ht.ne hk)]
            exact hmap k (ht.kept hk)

/-- Sharing the image keeps the frames in use. -/
theorem kept_shareImage (parent child : Nat) : Kept s (shareImage s parent child) := by
  unfold shareImage
  have hshare := kept_vmCowShare s parent child
  split
  · next s' heq =>
    rw [heq] at hshare
    exact hshare
  · next s' heq =>
    rw [heq] at hshare
    refine hshare.trans ?_
    unfold vmCopyUserRegion
    split
    · exact .refl s'
    · dsimp only
      exact fun n hn => kept_vmCopyDemandPages child parent vmDemandMaxPages 0 _ n hn

structure Claimed (t : Table) (i : Fin 64) (t' : Table) : Prop where
  slot : t.pool.map i = false ∨ (∀ j, t.pool.map j = true) ∧ (t.pcbs i).used = true ∧ (t.pcbs i).state ≠ .running
  map : t'.pool.map i = true
  pid : (t'.pcbs i).pid = t.nextPid

/-- An entry that is used again was in use and is not running. -/
theorem recycled_some {t : Table} (h : recycled t = some i) :
    (t.pcbs i).used = true ∧ (t.pcbs i).state ≠ .running := by
  have := List.find?_some h
  simpa using this

/-- If no entry can be used again, all that are in use are running. -/
theorem recycled_none {t : Table} (h : recycled t = none) :
    ∀ i, (t.pcbs i).used = true → (t.pcbs i).state = .running := by
  intro i hused
  have := List.find?_eq_none.mp h i (List.mem_finRange i)
  simpa [hused] using this

/-- The inheritance leaves the pid alone. -/
theorem inherit_pid (child : Pcb) (parent : Option Pcb) :
    (inherit child parent).pid = child.pid := by
  unfold inherit
  cases parent with
  | none => rfl
  | some par => rfl

/-- `pcb_create_child` claims a slot, or finds none and changes nothing. -/
theorem pcbCreateChild_cases (parentPid : Int) (t : Table) :
    (∃ i t', ProcTable.pcbCreateChild parentPid t = (some i, t') ∧ Claimed t i t') ∨
      NoSlot t ∧ ProcTable.pcbCreateChild parentPid t = (none, t) := by
  unfold ProcTable.pcbCreateChild
  rcases pcbClaimSlot_cases t with ⟨i, hfree, h⟩ | ⟨i, hfull, hrec, h⟩ | ⟨hfull, hrec, h⟩
  · rw [h]
    refine Or.inl ⟨i, _, rfl, Or.inl hfree, Function.update_self .., ?_⟩
    dsimp only [Table.setPcb]
    rw [Function.update_self, inherit_pid]
    rfl
  · rw [h]
    refine Or.inl ⟨i, _, rfl, Or.inr ⟨hfull, recycled_some hrec⟩, Function.update_self .., ?_⟩
    dsimp only [Table.setPcb]
    rw [Function.update_self, inherit_pid]
    rfl
  · rw [h]
    exact Or.inr ⟨⟨hfull, recycled_none hrec⟩, rfl⟩

/-- A claim needs a slot. -/
theorem Claimed.not_noSlot {t t' : Table} (h : Claimed t i t') : ¬ NoSlot t := by
  rintro ⟨hfull, hrunning⟩
  rcases h.slot with hfree | ⟨-, hused, hstate⟩
  · rw [hfull i] at hfree
    exact Bool.false_ne_true hfree.symm
  · exact hstate (hrunning i hused)

/-- A claim that is undone without its pool bit is a change. -/
theorem Claimed.changed {s s' : ForkState} {t' : Table} (h : Claimed s.table i t')
    (hmap : s'.table.pool.map = t'.pool.map) (hused : (s'.table.pcbs i).used = false) :
    ¬ Unchanged s s' := by
  intro hsame
  rcases h.slot with hfree | ⟨-, hbefore, -⟩
  · rw [← hsame.pool, hmap, h.map] at hfree
    exact Bool.false_ne_true hfree.symm
  · rw [← hsame.pcbs, hused] at hbefore
    exact Bool.false_ne_true hbefore

/-- The entry written is read back. -/
theorem setPcb_self (t : Table) (i : Fin 64) (p : Pcb) : (t.setPcb i p).pcbs i = p :=
  Function.update_self ..

/-- The child's entry is not in use afterwards. -/
theorem unuse_used (t : Table) (child : Fin 64) : ((unuse t child).pcbs child).used = false := by
  unfold unuse
  rw [setPcb_self]

/-- What happens from the call of `vm_create_address_space` on: a failure only marks the entry
unused, and a success has taken a frame. -/
theorem forkImage_cases (kernel : KernelTables) (f : SyscallFrame) (stackOk : Bool)
    (parent child : Fin 64) (s : ForkState) :
    (¬ (Room s.vm ∧ stackOk = true) ∧ (forkImage kernel f stackOk parent child s).1 = -1 ∧
        (forkImage kernel f stackOk parent child s).2.table = unuse s.table child) ∨
        ((Room s.vm ∧ stackOk = true) ∧
        (forkImage kernel f stackOk parent child s).1 = signed (s.table.pcbs child).pid ∧
        ∃ n, n < frameTotalCount ∧ s.vm.frames.used n = false ∧
          (forkImage kernel f stackOk parent child s).2.vm.frames.used n = true) := by
  unfold forkImage
  rcases vmCreateAddressSpace_cases kernel s.vm child with ⟨hroom, vm, n, h, hn, hfree, hused⟩ | ⟨hroom, vm, h, -⟩
  · rw [h]
    cases stackOk with
    | false => exact Or.inl ⟨fun hall => Bool.false_ne_true hall.2, rfl, rfl⟩
    | true =>
      refine Or.inr ⟨⟨hroom, rfl⟩, ?_, n, hn, hfree, kept_shareImage vm parent child n hused⟩
      simp only [Bool.not_true, Bool.false_eq_true, if_false, setPcb_self]
      rfl
  · rw [h]
    exact Or.inl ⟨fun hall => hroom hall.1, rfl, rfl⟩

/-- A fork that returns -1 has changed nothing exactly when it has ended before it claimed a slot;
no fork does that returns -1 later on. -/
theorem atomicOnFailure_iff (kernel : KernelTables) (frame : Option SyscallFrame) (stackOk : Bool)
    (s : ForkState) :
    AtomicOnFailure kernel frame stackOk s ↔ Refused frame s.table ∨ Succeeds stackOk s := by
  unfold AtomicOnFailure ForkMemory.sysFork
  cases hcur : ProcTable.pcbGetCurrent s.table with
  | none => exact iff_of_true (fun _ => .refl s) (Or.inl (Or.inl hcur))
  | some parent =>
    cases frame with
    | none => exact iff_of_true (fun _ => .refl s) (Or.inl (Or.inr (Or.inl rfl)))
    | some f =>
      dsimp only
      rcases pcbCreateChild_cases (signed (s.table.pcbs parent).pid) s.table with ⟨i, t, h, hclaim⟩ | ⟨hno, h⟩
      · have hnot : ¬ Refused (some f) s.table := by
          rintro (h | h | h)
          · rw [hcur] at h
            exact nomatch h
          · exact nomatch h
          · exact hclaim.not_noSlot h
        rw [or_iff_right hnot, h]
        dsimp only
        generalize hnamed : t.setPcb i { t.pcbs i with name := (t.pcbs parent).name, path := (t.pcbs parent).path } = u
        have hmap : u.pool.map = t.pool.map := by rw [← hnamed]; rfl
        have hpid : (u.pcbs i).pid = s.table.nextPid := by
          rw [← hnamed, setPcb_self, ← hclaim.pid]
        rcases forkImage_cases kernel f stackOk parent i ⟨u, s.vm.setSpace i {}⟩ with
          ⟨hfail, hvalue, htable⟩ | ⟨⟨hroom, hstack⟩, hvalue, n, hn, hfree, hused⟩
        · refine iff_of_false (fun hall => ?_) (fun hall => hfail ⟨hall.1, hall.2.1⟩)
          refine hclaim.changed ?_ ?_ (hall hvalue)
          · rw [htable]
            exact hmap
          · rw [htable]
            exact unuse_used u i
        · rw [hvalue, hpid]
          constructor
          · intro hall
            refine ⟨hroom, hstack, fun hwrapped => ?_⟩
            have hsame := (hall hwrapped).frames n hn
            rw [hused] at hsame
            exact Bool.false_ne_true (hfree.symm.trans hsame.symm)
          · exact fun hall hwrapped => absurd hwrapped hall.2.2
      · rw [h]
        exact iff_of_true (fun _ => .refl s) (Or.inl (Or.inr (Or.inr hno)))

/-- A fork that fails and keeps the pool bit is not atomic. -/
theorem not_atomicOnFailure_of_bit {kernel : KernelTables} {frame : Option SyscallFrame}
    {stackOk : Bool} {s : ForkState} (hbefore : s.table.pool.map i = false)
    (hvalue : (ForkMemory.sysFork kernel frame stackOk s).1 = -1)
    (hafter : (ForkMemory.sysFork kernel frame stackOk s).2.table.pool.map i = true) :
    ¬ AtomicOnFailure kernel frame stackOk s := by
  intro hall
  have hpool := congrFun (hall hvalue).pool i
  rw [hbefore, hafter] at hpool
  exact Bool.false_ne_true hpool.symm

def firstProcess : ForkState where
  table := (ProcTable.pcbProcessStart none pcbInit).2
  vm := (vmCreateAddressSpace exampleKernel exampleBoot 0).2

/-- A fork that gets no stack, and a fork that finds no chunk: both leave the slot taken.  The first
also leaves the parent's window read-only and three frames in use. -/
theorem not_atomicOnFailure_firstProcess :
    (¬ AtomicOnFailure exampleKernel (some fun _ => 0) false firstProcess ∧
      (firstProcess.vm.mem 0x1002 32).writable = true ∧
      ((ForkMemory.sysFork exampleKernel (some fun _ => 0) false firstProcess).2.vm.mem 0x1002 32).writable = false ∧
      ∀ n, 3 ≤ n ∧ n < 6 → firstProcess.vm.frames.used n = false ∧
        (ForkMemory.sysFork exampleKernel (some fun _ => 0) false firstProcess).2.vm.frames.used n = true) ∧
      ¬ AtomicOnFailure exampleKernel (some fun _ => 0) true
        { firstProcess with vm := { firstProcess.vm with userChunks := fun _ => true } } := by
  have hbefore : firstProcess.table.pool.map 1 = false := by decide
  refine ⟨⟨?_, by decide, by decide +kernel, ?_⟩, ?_⟩
  · exact not_atomicOnFailure_of_bit hbefore (by decide) (by decide)
  · rintro n ⟨hlo, hhi⟩
    obtain rfl | rfl | rfl : n = 3 ∨ n = 4 ∨ n = 5 := by omega
    · decide +kernel
    · decide +kernel
    · decide +kernel
  · exact not_atomicOnFailure_of_bit hbefore (by decide) (by decide)

end Monios.Analysis.ForkFailure
