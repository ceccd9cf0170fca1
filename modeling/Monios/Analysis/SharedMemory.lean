import Monios.Model.Shm
import Monios.Analysis.AddressSpaces
import Monios.Analysis.FramePool

/-!
# The lifetime of shared memory

The place of a segment lies below 1 GiB, where every address space has the kernel's pages of 2 MiB:
`vm_map_page` refuses it, so that `shm_attach` answers 0 and changes nothing (`shmAttach_eq`).
-/

set_option autoImplicit false

namespace Monios.Analysis

open Monios.Library Monios.Model

variable {s : Shm} {k : ShmSlot} {e : ShmEntry}

def OfSegment (e : ShmEntry) (p : Nat) : Prop := e.frame ≤ p ∧ p < e.frame + e.pages.toNat

def MappedIn (v : Vm) (i p : Nat) : Prop :=
  (v.spaces i).active = true ∧ UserMapped v.mem (v.spaces i).pml4Phys p

/-- No call gives back a frame of a segment that is still mapped, and after a successful
`shm_detach` the segment is not mapped in the calling process. -/
structure LifetimeKept (s : Shm) : Prop where
  returned : ∀ c s', shmStep s c = some s' → ∀ k p, (s.segments k).used = true → OfSegment (s.segments k) p →
    FrameUsed s.vm p → ¬ FrameUsed s'.vm p → ∀ i, ¬ MappedIn s'.vm i p
  detached : ∀ i addr s', shmDetach s addr = (0, s') → ∀ k, shmSlotOf addr = some k →
    ∀ p, OfSegment (s.segments k) p → ¬ MappedIn s'.vm i p

/-- The pages that an address space needs: the tables on the way to the segments, and what is mapped
for the user. -/
def Needs (v : Vm) (i p : Nat) : Prop :=
  (v.spaces i).active = true ∧
    (p = (v.spaces i).pml4Phys ∨ p = pdptOf v.mem (v.spaces i).pml4Phys ∨ p = pdOf v.mem (v.spaces i).pml4Phys 0 ∨
      UserMapped v.mem (v.spaces i).pml4Phys p)

/-- The address spaces of processes: `vm_create_address_space` gives each of them the kernel's
directory for the first GiB, and the frames they need are marked used. -/
structure Processes (v : Vm) : Prop where
  directory : ∀ i, (v.spaces i).active = true → ∀ k : ShmSlot, ∃ pde,
    vmDirectoryEntry v.mem (v.spaces i).pml4Phys (shmVbase + (k : Nat) * shmMaxSize) = some pde ∧ pde.large = true
  marked : ∀ i p, Needs v i p → InPool p → FrameUsed v p

structure Apart (s : Shm) : Prop where
  processes : Processes s.vm
  apart : ∀ i p, Needs s.vm i p → InPool p → ∀ k, (s.segments k).used = true → ¬ OfSegment (s.segments k) p
  pages : ∀ k, (s.segments k).used = true → 0 < (s.segments k).pages.toNat
  inPool : ∀ k, (s.segments k).used = true → ∀ p, OfSegment (s.segments k) p → InPool p

theorem shmAttach_eq (h : Apart s) (current : Option Nat) (shmid : Int) :
    shmAttach s current shmid = (0, s) := by
  unfold shmAttach
  split
  · next k i hk =>
      have hused : (s.segments k).used = true := by
        unfold shmById at hk
        exact (Option.filter_eq_some_iff.mp hk).2
      split
      · rfl
      · next hactive =>
          have hactive : (s.vm.spaces i).active = true := by simpa using hactive
          obtain ⟨pde, hpde, hlarge⟩ := h.processes.directory i hactive k
          have hclosed : Closed s.vm i (shmVbase + (k : Nat) * shmMaxSize + 0 * shmPageSize) := by
            rw [Nat.zero_mul, Nat.add_zero]
            exact Or.inr ⟨pde, hpde, hlarge⟩
          -- the first page is refused
          obtain ⟨n, hn⟩ := Nat.exists_eq_succ_of_ne_zero (h.pages k hused).ne'
          have hmap : vmMapPage s.vm i (shmVbase + (k : Nat) * shmMaxSize + 0 * shmPageSize)
              ((s.segments k).frame + 0) shmMapFlags = (false, s.vm) := by
            unfold vmMapPage
            rw [vmWalkAlloc_closed hclosed]
            simp
          simp only [hn, shmMapPages, hmap]
  · rfl

theorem toNat_frameAddress_div {n : Nat} (hn : n < Frame.frameTotalCount) :
    (frameAddress n / 4096).toNat = frameBasePhys + n := by
  rw [UInt64.toNat_div, toNat_frameAddress hn]
  unfold frameBasePhys
  simp only [UInt64.reduceToNat]
  omega

theorem frameUsed_frameFreeRun {v : Vm} {base : UInt64} {count : UInt32} {p : Nat} (hp : InPool p)
    (hout : ¬ ((base / 4096).toNat ≤ p ∧ p < (base / 4096).toNat + count.toNat))
    (hused : FrameUsed v p) :
    FrameUsed (v.frameFreeRun base count) p := by
  unfold Vm.frameFreeRun
  rcases frameFree_cases base count v.pool with ⟨n, ⟨rfl, hpos, hend, -⟩, heq⟩ | ⟨-, heq⟩
  · rw [toNat_frameAddress_div (by omega)] at hout
    rw [heq]
    show fill false v.frames.used n count.toNat (p - frameBasePhys) = true
    unfold fill
    have hp := hp.1
    rw [if_neg (by omega)]
    exact hused
  · rw [heq]
    exact hused

theorem Apart.setEntry (h : Apart s) (hused : e.used = (s.segments k).used)
    (hpages : e.pages = (s.segments k).pages) (hbase : e.physBase = (s.segments k).physBase) :
    Apart (s.set k e) := by
  have hget : ∀ l, ((s.set k e).segments l).used = (s.segments l).used ∧
      ((s.set k e).segments l).pages = (s.segments l).pages ∧
      ((s.set k e).segments l).physBase = (s.segments l).physBase := by
    intro l
    by_cases hl : l = k
    · subst hl
      simp [Shm.set, hused, hpages, hbase]
    · simp [Shm.set, Function.update_of_ne hl]
  have hof : ∀ l p, OfSegment ((s.set k e).segments l) p ↔ OfSegment (s.segments l) p := by
    intro l p
    simp only [OfSegment, ShmEntry.frame, (hget l).2.1, (hget l).2.2]
  refine ⟨h.processes, ?_, ?_, ?_⟩
  · intro i p hp hpool l hl
    rw [hof]
    rw [(hget l).1] at hl
    exact h.apart i p hp hpool l hl
  · intro l hl
    rw [(hget l).1] at hl
    rw [(hget l).2.1]
    exact h.pages l hl
  · intro l hl p
    rw [hof]
    rw [(hget l).1] at hl
    exact h.inPool l hl p

theorem shmRelease_mem (s : Shm) (k : ShmSlot) :
    (shmRelease s k).vm.mem = s.vm.mem ∧ (shmRelease s k).vm.spaces = s.vm.spaces := by
  simp only [shmRelease]
  split
  · exact ⟨rfl, rfl⟩
  · exact ⟨rfl, rfl⟩

theorem Apart.setUnused (h : Apart s) (he : e.used = false) : Apart (s.set k e) := by
  have hget : ∀ l, ((s.set k e).segments l).used = true → (s.segments l).used = true ∧
      (s.set k e).segments l = s.segments l := by
    intro l hl
    have hlk : l ≠ k := by
      rintro rfl
      simp [Shm.set, he] at hl
    simp only [Shm.set, Function.update_of_ne hlk] at hl ⊢
    exact ⟨hl, trivial⟩
  refine ⟨h.processes, ?_, ?_, ?_⟩
  · intro i p hp hpool l hl
    obtain ⟨hl, heq⟩ := hget l hl
    rw [heq]
    exact h.apart i p hp hpool l hl
  · intro l hl
    obtain ⟨hl, heq⟩ := hget l hl
    rw [heq]
    exact h.pages l hl
  · intro l hl
    obtain ⟨hl, heq⟩ := hget l hl
    rw [heq]
    exact h.inPool l hl

theorem Apart.release (h : Apart s) (hused : (s.segments k).used = true) :
    Apart (shmRelease s k) := by
  simp only [shmRelease]
  split
  · have hset := h.setUnused (k := k) (e := { s.segments k with physBase := 0, used := false }) rfl
    refine ⟨⟨h.processes.directory, ?_⟩, hset.apart, hset.pages, hset.inPool⟩
    intro i p hp hpool
    exact frameUsed_frameFreeRun hpool (h.apart i p hp hpool k hused)
      (h.processes.marked i p hp hpool)
  · exact h

theorem TableAt.of_le {mem mem' : PhysMem} {r level p : Nat}
    (hle : ∀ q i, (mem' q i).present = true → mem' q i = mem q i) (h : TableAt mem' r level p) :
    TableAt mem r level p := by
  induction h with
  | root => exact .root
  | next ht hi hp hl ih =>
    have heq := hle _ _ hp
    rw [heq] at hp hl ⊢
    exact .next ih hi hp hl

theorem UserMapped.of_le {mem mem' : PhysMem} {r p : Nat}
    (hle : ∀ q i, (mem' q i).present = true → mem' q i = mem q i) (h : UserMapped mem' r p) :
    UserMapped mem r p := by
  cases h with
  | small ht hi hp hu =>
    have heq := hle _ _ hp
    rw [heq] at hp hu ⊢
    exact .small (ht.of_le hle) hi hp hu
  | large ht hi hp hl hu lo hi' =>
    have heq := hle _ _ hp
    rw [heq] at hp hl hu lo hi'
    exact .large (ht.of_le hle) hi hp hl hu lo hi'

theorem shm_indices (k : ShmSlot) :
    pml4Idx (shmVbase + (k : Nat) * shmMaxSize) = 0 ∧
      pdptIdx (shmVbase + (k : Nat) * shmMaxSize) = 0 ∧
      pdIdx (shmVbase + (k : Nat) * shmMaxSize) = 64 + k := by
  have hk := k.isLt
  unfold pml4Idx pdptIdx pdIdx shmVbase shmMaxSize
  omega

section

variable {v v' : Vm} {n count : Nat}

structure Takes (v v' : Vm) (n count : Nat) : Prop where
  spaces : v'.spaces = v.spaces
  frames : v'.frames.used = fill true v.frames.used n count
  mem : v'.mem = fun p => if frameBasePhys + n ≤ p ∧ p < frameBasePhys + n + count then fun _ => {} else v.mem p
  free : AllBits false v.frames.used n count
  inPool : n + count ≤ frameTotalCount

theorem Takes.mem_eq (ht : Takes v v' n count) (h : Processes v) {i p : Nat} (hp : Needs v i p) :
    v'.mem p = v.mem p := by
  rw [ht.mem]
  refine if_neg ?_
  rintro ⟨hlo, hhi⟩
  have hend := ht.inPool
  have hused := h.marked i p hp ⟨by omega, by omega⟩
  have hfree := ht.free (p - frameBasePhys - n) (by omega)
  rw [show n + (p - frameBasePhys - n) = p - frameBasePhys by omega] at hfree
  exact absurd (hused.symm.trans hfree) (by simp)

theorem Takes.le (ht : Takes v v' n count) (q i : Nat) (hp : (v'.mem q i).present = true) :
    v'.mem q i = v.mem q i := by
  rw [ht.mem] at hp ⊢
  simp only at hp ⊢
  split at hp
  · exact nomatch hp
  · next hout => rw [if_neg hout]

theorem Takes.way (ht : Takes v v' n count) (h : Processes v) {i : Nat}
    (hi : (v.spaces i).active = true) :
    v'.mem (v.spaces i).pml4Phys = v.mem (v.spaces i).pml4Phys ∧
      pdptOf v'.mem (v.spaces i).pml4Phys = pdptOf v.mem (v.spaces i).pml4Phys ∧
      v'.mem (pdptOf v.mem (v.spaces i).pml4Phys) = v.mem (pdptOf v.mem (v.spaces i).pml4Phys) ∧
      pdOf v'.mem (v.spaces i).pml4Phys 0 = pdOf v.mem (v.spaces i).pml4Phys 0 ∧
      v'.mem (pdOf v.mem (v.spaces i).pml4Phys 0) = v.mem (pdOf v.mem (v.spaces i).pml4Phys 0) := by
  have h3 := ht.mem_eq h (i := i) ⟨hi, Or.inl rfl⟩
  have h2 := ht.mem_eq h (i := i) ⟨hi, Or.inr (Or.inl rfl)⟩
  have h1 := ht.mem_eq h (i := i) ⟨hi, Or.inr (Or.inr (Or.inl rfl))⟩
  have hpdpt : pdptOf v'.mem (v.spaces i).pml4Phys = pdptOf v.mem (v.spaces i).pml4Phys := by
    simp only [pdptOf, h3]
  refine ⟨h3, hpdpt, h2, ?_, h1⟩
  simp only [pdOf, hpdpt, h2]

theorem Takes.needs (ht : Takes v v' n count) (h : Processes v) {i p : Nat} (hp : Needs v' i p) :
    Needs v i p := by
  obtain ⟨hactive, hp⟩ := hp
  rw [ht.spaces] at hactive hp
  obtain ⟨-, hpdpt, -, hpd, -⟩ := ht.way h hactive
  rw [hpdpt, hpd] at hp
  refine ⟨hactive, ?_⟩
  rcases hp with hp | hp | hp | hp
  · exact Or.inl hp
  · exact Or.inr (Or.inl hp)
  · exact Or.inr (Or.inr (Or.inl hp))
  · exact Or.inr (Or.inr (Or.inr (hp.of_le ht.le)))

theorem Takes.processes (ht : Takes v v' n count) (h : Processes v) : Processes v' := by
  refine ⟨?_, ?_⟩
  · intro i hi k
    rw [ht.spaces] at hi ⊢
    obtain ⟨pde, hpde, hlarge⟩ := h.directory i hi k
    refine ⟨pde, ?_, hlarge⟩
    obtain ⟨hroot, hpdpt, hpdptMem, hpd, hpdMem⟩ := ht.way h hi
    obtain ⟨h4, h3, -⟩ := shm_indices k
    rw [← hpde]
    unfold pdOf pdptOf at *
    simp only [vmDirectoryEntry, h4, h3, hroot, hpdptMem, hpdMem]
  · intro i p hp hpool
    have hused := h.marked i p (ht.needs h hp) hpool
    unfold FrameUsed at hused ⊢
    rw [ht.frames]
    unfold fill
    split
    · rfl
    · exact hused

end

theorem Apart.setNew (h : Apart s) {v : Vm} {n : Nat} (hpos : 0 < e.pages.toNat)
    (ht : Takes s.vm v n e.pages.toNat) (hbase : e.physBase = frameAddress n) :
    Apart (Shm.set { s with vm := v } k e) := by
  have hend := ht.inPool
  have hframe : e.frame = frameBasePhys + n := by
    unfold ShmEntry.frame
    rw [hbase, toNat_frameAddress_div]
    unfold Frame.frameTotalCount
    unfold frameTotalCount at hend
    omega
  refine ⟨ht.processes h.processes, ?_, ?_, ?_⟩
  · intro i p hp hpool l hl
    have hneeds := ht.needs h.processes hp
    by_cases hlk : l = k
    · subst hlk
      simp only [Shm.set, Function.update_self]
      rintro ⟨hlo, hhi⟩
      rw [hframe] at hlo hhi
      have hmarked := h.processes.marked i p hneeds hpool
      have hfree := ht.free (p - frameBasePhys - n) (by omega)
      rw [show n + (p - frameBasePhys - n) = p - frameBasePhys by omega] at hfree
      exact absurd (hmarked.symm.trans hfree) (by simp)
    · simp only [Shm.set, Function.update_of_ne hlk] at hl ⊢
      exact h.apart i p hneeds hpool l hl
  · intro l hl
    by_cases hlk : l = k
    · subst hlk
      simpa [Shm.set] using hpos
    · simp only [Shm.set, Function.update_of_ne hlk] at hl ⊢
      exact h.pages l hl
  · intro l hl p hp
    by_cases hlk : l = k
    · subst hlk
      simp only [Shm.set, Function.update_self] at hp
      obtain ⟨hlo, hhi⟩ := hp
      rw [hframe] at hlo hhi
      exact ⟨by omega, by omega⟩
    · simp only [Shm.set, Function.update_of_ne hlk] at hl hp
      exact h.inPool l hl p hp

theorem Apart.create {s s' : Shm} (h : Apart s) {key size : UInt32} {id : Int}
    (hcreate : shmCreate s key size = some (id, s')) :
    Apart s' := by
  unfold shmCreate at hcreate
  split at hcreate
  · obtain ⟨-, rfl⟩ := Prod.mk.inj (Option.some.inj hcreate)
    exact h
  · split at hcreate
    · obtain ⟨-, rfl⟩ := Prod.mk.inj (Option.some.inj hcreate)
      exact h
    · simp only at hcreate
      split at hcreate
      · obtain ⟨-, rfl⟩ := Prod.mk.inj (Option.some.inj hcreate)
        exact h
      · next k hk =>
          have hunused : (s.segments k).used = false := by simpa using List.find?_some hk
          generalize (size + 4096 - 1) / 4096 = pages at hcreate
          split at hcreate
          · exact nomatch hcreate
          · next base vm halloc =>
              unfold Vm.frameAllocAligned at halloc
              obtain ⟨⟨base', f⟩, hpool, heq⟩ := Option.map_eq_some_iff.mp halloc
              obtain ⟨rfl, rfl⟩ := Prod.mk.inj heq
              simp only at hcreate
              rcases frameAllocAligned_cases hpool with ⟨rfl, rfl⟩ | ⟨n, -, hpos, hend, hfree, rfl, hbits, -, -⟩
              · -- there are no frames: the entry stays unused
                rw [if_pos rfl] at hcreate
                obtain ⟨-, rfl⟩ := Prod.mk.inj (Option.some.inj hcreate)
                exact h.setUnused hunused
              · rw [if_neg (frameAddress_ne_zero (by omega)),
                  toNat_frameAddress_div (by omega)] at hcreate
                obtain ⟨-, rfl⟩ := Prod.mk.inj (Option.some.inj hcreate)
                exact h.setNew hpos ⟨rfl, hbits, rfl, hfree, hend⟩ rfl

theorem Apart.detach (h : Apart s) (addr : UInt64) : Apart (shmDetach s addr).2 := by
  unfold shmDetach
  split
  · exact h
  · next k hk =>
      have hused : (s.segments k).used = true := (Option.filter_eq_some_iff.mp hk).2
      have hset := h.setEntry (k := k) (e := { s.segments k with attachCount :=
        if 0 < (s.segments k).attachCount then (s.segments k).attachCount - 1 else (s.segments k).attachCount }) rfl rfl rfl
      apply hset.release
      simpa [Shm.set] using hused

theorem Apart.destroy (h : Apart s) (shmid : Int) : Apart (shmDestroy s shmid).2 := by
  unfold shmDestroy
  split
  · exact h
  · next k hk =>
      have hused : (s.segments k).used = true := by
        unfold shmById at hk
        exact (Option.filter_eq_some_iff.mp hk).2
      have hset := h.setEntry (k := k) (e := { s.segments k with doomed := true }) rfl rfl rfl
      apply hset.release
      simpa [Shm.set] using hused

theorem Apart.step {s s' : Shm} (h : Apart s) {c : Option Nat × ShmCall}
    (hstep : shmStep s c = some s') : Apart s' := by
  obtain ⟨current, call⟩ := c
  cases call with
  | create key size =>
    obtain ⟨⟨id, s''⟩, hcreate, rfl⟩ := Option.map_eq_some_iff.mp hstep
    exact h.create hcreate
  | attach shmid =>
    obtain rfl := Option.some.inj hstep
    rw [shmAttach_eq h]
    exact h
  | detach addr =>
    obtain rfl := Option.some.inj hstep
    exact h.detach addr
  | destroy shmid =>
    obtain rfl := Option.some.inj hstep
    exact h.destroy shmid

theorem shmDetach_mem (s : Shm) (addr : UInt64) :
    (shmDetach s addr).2.vm.mem = s.vm.mem ∧ (shmDetach s addr).2.vm.spaces = s.vm.spaces := by
  unfold shmDetach
  split
  · exact ⟨rfl, rfl⟩
  · exact shmRelease_mem _ _

theorem Apart.lifetimeKept (h : Apart s) : LifetimeKept s := by
  refine ⟨?_, ?_⟩
  · rintro c s' hstep k p hused hp - hgone i ⟨hactive, hmapped⟩
    have hafter := h.step hstep
    exact hgone (hafter.processes.marked i p ⟨hactive, Or.inr (Or.inr (Or.inr hmapped))⟩ (h.inPool k hused p hp))
  · rintro i addr s' hdetach k hk p hp ⟨hactive, hmapped⟩
    have hused : (s.segments k).used = true := by
      by_contra hunused
      have hfilter : (some k).filter (fun k => (s.segments k).used) = none := by simpa using hunused
      simp [shmDetach, hk, hfilter] at hdetach
    obtain ⟨hmem, hspaces⟩ := shmDetach_mem s addr
    rw [hdetach] at hmem hspaces
    rw [hspaces] at hactive hmapped
    rw [hmem] at hmapped
    exact h.apart i p ⟨hactive, Or.inr (Or.inr (Or.inr hmapped))⟩ (h.inPool k hused p hp) k hused hp

/-- In every run of the four calls, by any processes in any order, no frame of a segment is given
back while it is mapped, and no process has a segment mapped that it has detached. -/
theorem lifetimeKept_of_run {v : Vm} (hv : Processes v) {calls : List (Option Nat × ShmCall)}
    {s : Shm} (h : Run shmStep { vm := v } calls s) : LifetimeKept s := by
  have hapart : Apart s := by
    refine h.invariant (I := Apart) (fun s c s' hs hstep => hs.step hstep) ⟨hv, ?_, ?_, ?_⟩
    · intro i p _ _ k hk
      cases hk
    · intro k hk
      cases hk
    · intro k hk
      cases hk
  exact hapart.lifetimeKept

theorem Owned.processes {kernel : KernelTables} {own : Owner} {v : Vm} (h : Owned kernel own v) :
    Processes v := by
  refine ⟨?_, ?_⟩
  · intro i hi k
    have hshape := h.shape i hi
    obtain ⟨h4, h3, h2⟩ := shm_indices k
    have hk := k.isLt
    obtain ⟨hpresent, hlarge, -⟩ := hshape.identity (64 + k) (by omega) (by omega) (by omega)
    refine ⟨_, ?_, hlarge⟩
    have hpdpt := hshape.pdpt_present
    have hpd0 := hshape.pd0_present
    unfold pdOf pdptOf at *
    simp only [vmDirectoryEntry, h4, h3, h2, hpdpt, hpd0, hpresent, Bool.not_true,
      if_neg Bool.false_ne_true]
  · rintro i p ⟨hi, hp⟩ hpool
    have hshape := h.shape i hi
    rcases hp with rfl | rfl | rfl | hp
    · exact h.used i hi _ _ hshape.root
    · exact h.used i hi _ _ hshape.pdpt_own
    · exact h.used i hi _ _ (hshape.pd_own 0 ⟨by decide, Or.inl rfl, hshape.pd0_present⟩)
    · rcases hshape.userMapped h.kernel hp with ⟨role, hown⟩ | hout
      · exact h.used i hi p role hown
      · exact absurd hpool hout

theorem processes_of_run {kernel : KernelTables} {ram : PhysMem} {actions : List VmAction} {v : Vm}
    (h : RunWhile (Model.vmStep kernel) Orderly (vmInit kernel ram) actions v) : Processes v := by
  obtain ⟨own, howned⟩ := h.invariant (I := fun s => ∃ own, Owned kernel own s)
    (fun s a s' ha ⟨own, hown⟩ hs => hown.vmStep ha hs) ⟨_, owned_vmInit kernel ram⟩
  exact howned.processes

def twoProcesses : Vm := vmRun exampleKernel exampleBoot [.create 0, .create 1]

/-- The first one creates a segment and attaches it, the second one destroys it, and the first one
detaches it. -/
def shmCalls : List (Option Nat × ShmCall) :=
  [(some 0, .create 7 4096), (some 0, .attach 1), (some 1, .destroy 1), (some 0, .detach 0x08000000)]

theorem lifetimeKept_shmCalls :
    ∃ s, Run shmStep { vm := twoProcesses } shmCalls s ∧ LifetimeKept s := by
  have hv : Processes twoProcesses := by
    refine @processes_of_run exampleKernel (fun _ _ => {}) [.create 0, .create 1] _ ?_
    exact runWhile_cons ⟨trivial, by decide⟩ (runWhile_cons ⟨trivial, by decide⟩ (runWhile_nil _ _))
  have hcreate : (shmStep { vm := twoProcesses } (some 0, .create 7 4096)).isSome = true := by
    decide
  obtain ⟨s, hs⟩ := Option.isSome_iff_exists.mp hcreate
  have hrun : ∃ t, Run shmStep { vm := twoProcesses } shmCalls t :=
    ⟨_, .cons hs (.cons rfl (.cons rfl (.cons rfl (.nil _))))⟩
  obtain ⟨t, ht⟩ := hrun
  exact ⟨t, ht, lifetimeKept_of_run hv ht⟩

end Monios.Analysis
