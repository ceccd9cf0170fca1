import Monios.Library.Run
import Monios.Model.Vm

/-!
# Frames that address spaces own

The property: a frame of the pool that is reachable from an active address space is marked used. The
frames that are handed out belong to the address space they were handed out for (`own`), and `Shape`
says that an address space reaches nothing else but pages outside the pool and the kernel's own
directories, which lie in the pool and are not marked.
-/

set_option autoImplicit false

namespace Monios.Analysis

open Monios.Library Monios.Model

variable {p : Nat} {e : PageEntry}

def InPool (p : Nat) : Prop := frameBasePhys ≤ p ∧ p < frameBasePhys + frameTotalCount

def FrameUsed (s : Vm) (p : Nat) : Prop := s.frames.used (p - frameBasePhys) = true

inductive TableAt (mem : PhysMem) (pml4 : Nat) : Nat → Nat → Prop
  | root : TableAt mem pml4 3 pml4
  | next {level t i : Nat} (ht : TableAt mem pml4 (level + 1) t) (hi : i < 512) (hp : (mem t i).present = true)
      (hl : level = 0 → (mem t i).large = false) : TableAt mem pml4 level (mem t i).frame

inductive UserMapped (mem : PhysMem) (pml4 : Nat) : Nat → Prop
  | small {t i : Nat} (ht : TableAt mem pml4 0 t) (hi : i < 512) (hp : (mem t i).present = true)
      (hu : (mem t i).user = true) : UserMapped mem pml4 (mem t i).frame
  | large {t i p : Nat} (ht : TableAt mem pml4 1 t) (hi : i < 512) (hp : (mem t i).present = true)
      (hl : (mem t i).large = true) (hu : (mem t i).user = true) (lo : (mem t i).frame / 512 * 512 ≤ p)
      (hi' : p < (mem t i).frame / 512 * 512 + 512) : UserMapped mem pml4 p

def Reaches (mem : PhysMem) (pml4 p : Nat) : Prop :=
  (∃ level, TableAt mem pml4 level p) ∨ UserMapped mem pml4 p

def FramesUsed (s : Vm) : Prop :=
  ∀ i, (s.spaces i).active = true → ∀ p, Reaches s.mem (s.spaces i).pml4Phys p → InPool p → FrameUsed s p

def Closed (s : Vm) (i vaddr : Nat) : Prop :=
  (s.mem (s.spaces i).pml4Phys (pml4Idx vaddr)).present = false ∨
    ∃ pde, vmDirectoryEntry s.mem (s.spaces i).pml4Phys vaddr = some pde ∧ pde.large = true

/-- A fork finds the two entries of the parent's window unsplit, and `vm_map_page` itself is given a
page that is not a frame of the pool. -/
def Unsplit (s : Vm) : VmAction → Prop
  | .cowShare parent _ => (s.spaces parent).active = true → ∀ pd0, vmGetPd0 s parent = some pd0 →
      (s.mem pd0 32).large = true ∧ (s.mem pd0 33).large = true
  | .mapPage i vaddr page flags =>
    (s.spaces i).active = true → flags.present = true → InPool page → Closed s i vaddr
  | _ => True

def framesAsked (s : Vm) : VmAction → Nat
  | .create _ => 3
  | .destroy _ => 0
  | .mapPage _ _ _ _ => 2
  | .pageFault _ _ errorCode => if errorCode.testBit 0 then 513 else 3
  | .cowShare parent child =>
    2 * if parent = child then vmDemandMaxPages else (s.spaces parent).demandPages.length
  | .cowFault _ _ _ => 513

def framesBelowKernel : Nat := 4096

/-- The call does not split what it shares, and the allocator, whose cursor only moves up, stays
below the kernel. -/
def Orderly (s : Vm) (a : VmAction) : Prop :=
  Unsplit s a ∧ s.frames.cursor + framesAsked s a ≤ framesBelowKernel

inductive Role
  | pml4
  | pdpt
  | pd (k : Nat)
  | pt (k j : Nat)
  | copy

abbrev Owner := Nat → Option (Nat × Role)

def pdptOf (mem : PhysMem) (r : Nat) : Nat := (mem r 0).frame
def pdOf (mem : PhysMem) (r k : Nat) : Nat := (mem (pdptOf mem r) k).frame
def ptOf (mem : PhysMem) (r k j : Nat) : Nat := (mem (pdOf mem r k) j).frame

structure HasPd (mem : PhysMem) (r k : Nat) : Prop where
  lt : k < 512
  priv : k = 0 ∨ kernelDirectory k = none
  present : (mem (pdptOf mem r) k).present = true

structure HasPt (mem : PhysMem) (r k j : Nat) : Prop where
  pd : HasPd mem r k
  lt : j < 512
  present : (mem (pdOf mem r k) j).present = true
  small : (mem (pdOf mem r k) j).large = false

structure Shape (kernel : KernelTables) (own : Owner) (mem : PhysMem) (r : Nat) : Prop where
  root : own r = some (r, .pml4)
  pdpt_present : (mem r 0).present = true
  pdpt_own : own (pdptOf mem r) = some (r, .pdpt)
  pml4_only : ∀ i, i ≠ 0 → i < 512 → (mem r i).present = false
  shared : ∀ k t, k ≠ 0 → kernelDirectory k = some t →
    (mem (pdptOf mem r) k).present = true ∧ pdOf mem r k = kernel.table t
  pd0_present : (mem (pdptOf mem r) 0).present = true
  pd_own : ∀ k, HasPd mem r k → own (pdOf mem r k) = some (r, .pd k)
  identity : ∀ j, j < 512 → j ≠ 32 → j ≠ 33 → (mem (pdOf mem r 0) j).present = true ∧
    (mem (pdOf mem r 0) j).large = true ∧ (mem (pdOf mem r 0) j).user = false
  window : ∀ j, j = 32 ∨ j = 33 → (mem (pdOf mem r 0) j).present = true
  window_large : ∀ j, j = 32 ∨ j = 33 → (mem (pdOf mem r 0) j).large = true →
    ∀ p, (mem (pdOf mem r 0) j).frame / 512 * 512 ≤ p → p < (mem (pdOf mem r 0) j).frame / 512 * 512 + 512 → ¬ InPool p
  pd_small : ∀ k j, k ≠ 0 → HasPd mem r k → j < 512 → (mem (pdOf mem r k) j).present = true →
    (mem (pdOf mem r k) j).large = false
  pt_own : ∀ k j, HasPt mem r k j → own (ptOf mem r k j) = some (r, .pt k j)
  leaf : ∀ k j n, HasPt mem r k j → n < 512 → (mem (ptOf mem r k j) n).present = true →
    ¬ InPool (mem (ptOf mem r k j) n).frame ∨ (k = 0 ∧ own (mem (ptOf mem r k j) n).frame = some (r, .copy))

structure Owned (kernel : KernelTables) (own : Owner) (s : Vm) : Prop where
  cursor_le : s.frames.cursor ≤ framesBelowKernel
  free : ∀ n, s.frames.cursor ≤ n → s.frames.used n = false
  below : ∀ p x, own p = some x → frameBasePhys ≤ p ∧ p < frameBasePhys + s.frames.cursor
  used : ∀ i, (s.spaces i).active = true → ∀ p role, own p = some ((s.spaces i).pml4Phys, role) → FrameUsed s p
  distinct : ∀ i j, (s.spaces i).active = true → (s.spaces j).active = true →
    (s.spaces i).pml4Phys = (s.spaces j).pml4Phys → i = j
  shape : ∀ i, (s.spaces i).active = true → Shape kernel own s.mem (s.spaces i).pml4Phys
  tracked : ∀ i, (s.spaces i).active = true → ∀ p ∈ (s.spaces i).ptPages, ∃ role, own p = some ((s.spaces i).pml4Phys, role)
  kernel : ∀ t, s.mem (kernel.table t) = initPageTables kernel t
  rooted : ∀ p r role, own p = some (r, role) → own r = some (r, .pml4)

variable {kernel : KernelTables} {own own' : Owner} {mem mem' : PhysMem} {r : Nat} {s s' : Vm}

theorem Shape.frame_leaf (h : Shape kernel own mem r)
    (hmem : ∀ p role, own p = some (r, role) → (∀ k j, role ≠ .pt k j) → mem' p = mem p)
    (hown : ∀ p x, own p = some x → own' p = some x)
    (hleaf : ∀ k j n, HasPt mem r k j → n < 512 → (mem' (ptOf mem r k j) n).present = true →
      ¬ InPool (mem' (ptOf mem r k j) n).frame ∨
      (k = 0 ∧ own' (mem' (ptOf mem r k j) n).frame = some (r, .copy))) :
    Shape kernel own' mem' r := by
  have hr : mem' r = mem r := hmem r _ h.root (by simp)
  have h1 : pdptOf mem' r = pdptOf mem r := by simp only [pdptOf, hr]
  have hp : mem' (pdptOf mem r) = mem (pdptOf mem r) := hmem _ _ h.pdpt_own (by simp)
  have h2 : ∀ k, pdOf mem' r k = pdOf mem r k := fun k => by simp only [pdOf, h1, hp]
  have hpd : ∀ k, HasPd mem' r k → HasPd mem r k :=
    fun k hk => ⟨hk.lt, hk.priv, by simpa only [h1, hp] using hk.present⟩
  have hd : ∀ k, HasPd mem r k → mem' (pdOf mem r k) = mem (pdOf mem r k) :=
    fun k hk => hmem _ _ (h.pd_own k hk) (by simp)
  have h0 : mem' (pdOf mem r 0) = mem (pdOf mem r 0) := hd 0 ⟨by decide, .inl rfl, h.pd0_present⟩
  have hpt : ∀ k j, HasPt mem' r k j → HasPt mem r k j := by
    intro k j hk
    have hk' := hpd k hk.pd
    exact ⟨hk', hk.lt, by simpa only [h2, hd k hk'] using hk.present,
      by simpa only [h2, hd k hk'] using hk.small⟩
  have h3 : ∀ k j, HasPt mem r k j → ptOf mem' r k j = ptOf mem r k j := by
    intro k j hk
    simp only [ptOf, h2, hd k hk.pd]
  refine ⟨hown _ _ h.root, ?_, ?_, ?_, ?_, ?_, ?_, ?_, ?_, ?_, ?_, ?_, ?_⟩
  · rw [hr]; exact h.pdpt_present
  · rw [h1]; exact hown _ _ h.pdpt_own
  · rw [hr]; exact h.pml4_only
  · simp only [h1, h2, hp]; exact h.shared
  · rw [h1, hp]; exact h.pd0_present
  · intro k hk
    rw [h2]
    exact hown _ _ (h.pd_own k (hpd k hk))
  · simp only [h2, h0]; exact h.identity
  · simp only [h2, h0]; exact h.window
  · simp only [h2, h0]; exact h.window_large
  · intro k j hk hk' hj
    rw [h2, hd k (hpd k hk')]
    exact h.pd_small k j hk (hpd k hk') hj
  · intro k j hk
    rw [h3 k j (hpt k j hk)]
    exact hown _ _ (h.pt_own k j (hpt k j hk))
  · intro k j n hk
    rw [h3 k j (hpt k j hk)]
    exact hleaf k j n (hpt k j hk)

theorem Shape.frame (h : Shape kernel own mem r)
    (hmem : ∀ p role, own p = some (r, role) → mem' p = mem p)
    (hown : ∀ p x, own p = some x → own' p = some x) : Shape kernel own' mem' r := by
  refine h.frame_leaf (fun p role hp _ => hmem p role hp) hown ?_
  intro k j n hk hn hpres
  rw [hmem _ _ (h.pt_own k j hk)] at hpres ⊢
  rcases h.leaf k j n hk hn hpres with h | ⟨h, h'⟩
  · exact .inl h
  · exact .inr ⟨h, hown _ _ h'⟩

/-- An entry of a directory of the address space may become one for a page table that is its own, or
in the window one for pages outside the pool. -/
theorem Shape.frame_pde (h : Shape kernel own mem r) {k j : Nat} (hk : HasPd mem r k) (hj : j < 512)
    (hmem : ∀ p role, own p = some (r, role) → role ≠ .pd k → mem' p = mem p)
    (hpde : ∀ m, mem' (pdOf mem r k) m = if m = j then e else mem (pdOf mem r k) m)
    (hown : ∀ p x, own p = some x → own' p = some x)
    (hwindow : k = 0 → (j = 32 ∨ j = 33) ∧ e.present = true ∧ (e.large = true →
      ∀ p, e.frame / 512 * 512 ≤ p → p < e.frame / 512 * 512 + 512 → ¬ InPool p))
    (hsmall : k ≠ 0 → e.present = true → e.large = false)
    (htable : e.present = true → e.large = false → own' e.frame = some (r, .pt k j) ∧ ∀ n, n < 512 →
      (mem' e.frame n).present = true →
      ¬ InPool (mem' e.frame n).frame ∨ (k = 0 ∧ own' (mem' e.frame n).frame = some (r, .copy))) :
    Shape kernel own' mem' r := by
  have hr : mem' r = mem r := hmem r _ h.root (by simp)
  have h1 : pdptOf mem' r = pdptOf mem r := by simp only [pdptOf, hr]
  have hp : mem' (pdptOf mem r) = mem (pdptOf mem r) := hmem _ _ h.pdpt_own (by simp)
  have h2 : ∀ l, pdOf mem' r l = pdOf mem r l := fun l => by simp only [pdOf, h1, hp]
  have hpd : ∀ l, HasPd mem' r l → HasPd mem r l :=
    fun l hl => ⟨hl.lt, hl.priv, by simpa only [h1, hp] using hl.present⟩
  have hd : ∀ l, HasPd mem r l → ∀ m, mem' (pdOf mem r l) m = if l = k ∧ m = j then e else mem (pdOf mem r l) m := by
    intro l hl m
    by_cases hlk : l = k
    · subst hlk
      simp only [hpde, true_and]
    · rw [hmem _ _ (h.pd_own l hl) (by simpa using hlk), if_neg (fun hc => hlk hc.1)]
  have hd0 := hd 0 ⟨by decide, .inl rfl, h.pd0_present⟩
  -- a page table of after is one of before, or the new one
  have hpt : ∀ l m, HasPt mem' r l m → (l = k ∧ m = j ∧ e.present = true ∧ e.large = false ∧ ptOf mem' r l m = e.frame) ∨
      (HasPt mem r l m ∧ ptOf mem' r l m = ptOf mem r l m) := by
    intro l m hl
    have hl' := hpd l hl.pd
    have hpres := hl.present
    have hsm := hl.small
    rw [h2, hd l hl'] at hpres hsm
    unfold ptOf
    rw [h2, hd l hl']
    by_cases hc : l = k ∧ m = j
    · rw [if_pos hc] at hpres hsm ⊢
      exact .inl ⟨hc.1, hc.2, hpres, hsm, rfl⟩
    · rw [if_neg hc] at hpres hsm ⊢
      exact .inr ⟨⟨hl', hl.lt, hpres, hsm⟩, rfl⟩
  refine ⟨hown _ _ h.root, ?_, ?_, ?_, ?_, ?_, ?_, ?_, ?_, ?_, ?_, ?_, ?_⟩
  · rw [hr]; exact h.pdpt_present
  · rw [h1]; exact hown _ _ h.pdpt_own
  · rw [hr]; exact h.pml4_only
  · simp only [h1, h2, hp]; exact h.shared
  · rw [h1, hp]; exact h.pd0_present
  · intro l hl
    rw [h2]
    exact hown _ _ (h.pd_own l (hpd l hl))
  · intro m hm h32 h33
    rw [h2, hd0, if_neg]
    · exact h.identity m hm h32 h33
    · rintro ⟨rfl, rfl⟩
      exact (hwindow rfl).1.elim h32 h33
  · intro m hm
    rw [h2, hd0]
    split
    · next hc => exact (hwindow hc.1.symm).2.1
    · exact h.window m hm
  · intro m hm
    rw [h2, hd0]
    split
    · next hc => exact (hwindow hc.1.symm).2.2
    · exact h.window_large m hm
  · intro l m hl hl' hm
    rw [h2, hd l (hpd l hl')]
    split
    · next hc => exact hsmall (hc.1 ▸ hl)
    · exact h.pd_small l m hl (hpd l hl') hm
  · intro l m hl
    rcases hpt l m hl with ⟨rfl, rfl, hpres, hsm, heq⟩ | ⟨hl', heq⟩
    · rw [heq]
      exact (htable hpres hsm).1
    · rw [heq]
      exact hown _ _ (h.pt_own l m hl')
  · intro l m n hl hn
    rcases hpt l m hl with ⟨rfl, rfl, hpres, hsm, heq⟩ | ⟨hl', heq⟩
    · rw [heq]
      exact (htable hpres hsm).2 n hn
    · rw [heq, hmem _ _ (h.pt_own l m hl') (by simp)]
      intro hpres
      rcases h.leaf l m n hl' hn hpres with h | ⟨h, h'⟩
      · exact .inl h
      · exact .inr ⟨h, hown _ _ h'⟩

theorem Shape.frame_pdpte (h : Shape kernel own mem r) {k q : Nat} (hlt : k < 512) (hk0 : k ≠ 0)
    (hk : kernelDirectory k = none)
    (hmem : ∀ p role, own p = some (r, role) → role ≠ .pdpt → mem' p = mem p)
    (hpdpte : ∀ m, mem' (pdptOf mem r) m = if m = k then userPage q else mem (pdptOf mem r) m)
    (hown : ∀ p x, own p = some x → own' p = some x) (hq : own' q = some (r, .pd k))
    (hempty : ∀ j, (mem' q j).present = false) : Shape kernel own' mem' r := by
  have hr : mem' r = mem r := hmem r _ h.root (by simp)
  have h1 : pdptOf mem' r = pdptOf mem r := by simp only [pdptOf, hr]
  have h2 : ∀ l, pdOf mem' r l = if l = k then q else pdOf mem r l := by
    intro l
    unfold pdOf
    rw [h1, hpdpte]
    split <;> rfl
  have hpd : ∀ l, l ≠ k → HasPd mem' r l → HasPd mem r l := by
    intro l hlk hl
    have hpres := hl.present
    rw [h1, hpdpte, if_neg hlk] at hpres
    exact ⟨hl.lt, hl.priv, hpres⟩
  have hd : ∀ l, l ≠ k → HasPd mem r l → mem' (pdOf mem' r l) = mem (pdOf mem r l) := by
    intro l hlk hl
    rw [h2, if_neg hlk]
    exact hmem _ _ (h.pd_own l hl) (by simp)
  have h0 := hd 0 hk0.symm ⟨by decide, .inl rfl, h.pd0_present⟩
  have hpt : ∀ l m, HasPt mem' r l m → HasPt mem r l m ∧ ptOf mem' r l m = ptOf mem r l m := by
    intro l m hl
    by_cases hlk : l = k
    · have hpres := hl.present
      rw [h2, if_pos hlk, hempty] at hpres
      exact absurd hpres (by simp)
    · have hl' := hpd l hlk hl.pd
      have hpres := hl.present
      have hsm := hl.small
      rw [hd l hlk hl'] at hpres hsm
      refine ⟨⟨hl', hl.lt, hpres, hsm⟩, ?_⟩
      unfold ptOf
      rw [hd l hlk hl']
  refine ⟨hown _ _ h.root, ?_, ?_, ?_, ?_, ?_, ?_, ?_, ?_, ?_, ?_, ?_, ?_⟩
  · rw [hr]; exact h.pdpt_present
  · rw [h1]; exact hown _ _ h.pdpt_own
  · rw [hr]; exact h.pml4_only
  · intro l t hl ht
    have hlk : l ≠ k := by
      rintro rfl
      rw [hk] at ht
      exact nomatch ht
    rw [h1, hpdpte, h2, if_neg hlk, if_neg hlk]
    exact h.shared l t hl ht
  · rw [h1, hpdpte, if_neg hk0.symm]; exact h.pd0_present
  · intro l hl
    by_cases hlk : l = k
    · rw [h2, if_pos hlk, hlk]
      exact hq
    · rw [h2, if_neg hlk]
      exact hown _ _ (h.pd_own l (hpd l hlk hl))
  · rw [h0]; exact h.identity
  · rw [h0]; exact h.window
  · rw [h0]; exact h.window_large
  · intro l m hl hl' hm
    by_cases hlk : l = k
    · rw [h2, if_pos hlk, hempty]
      exact fun hp => absurd hp (by simp)
    · rw [hd l hlk (hpd l hlk hl')]
      exact h.pd_small l m hl (hpd l hlk hl') hm
  · intro l m hl
    rw [(hpt l m hl).2]
    exact hown _ _ (h.pt_own l m (hpt l m hl).1)
  · intro l m n hl hn
    have hl' := (hpt l m hl).1
    rw [(hpt l m hl).2, hmem _ _ (h.pt_own l m hl') (by simp)]
    intro hpres
    rcases h.leaf l m n hl' hn hpres with h | ⟨h, h'⟩
    · exact .inl h
    · exact .inr ⟨h, hown _ _ h'⟩

theorem initPageTables_shared (kernel : KernelTables) {k : Nat} {t : Fin 9} (hk : k ≠ 0)
    (ht : kernelDirectory k = some t) (j : Nat) :
    (initPageTables kernel t j).present = true ∧ (initPageTables kernel t j).large = true ∧
      (initPageTables kernel t j).user = false := by
  unfold kernelDirectory at ht
  split at ht <;> simp_all <;> subst ht <;> simp [initPageTables, identityPage]

section Reach

variable (h : Shape kernel own mem r) (hk : ∀ t, mem (kernel.table t) = initPageTables kernel t)

theorem TableAt.level_le {level p : Nat} (ht : TableAt mem r level p) : level ≤ 3 := by
  induction ht with
  | root => exact Nat.le_refl 3
  | next _ _ _ _ ih => omega

theorem TableAt.eq_root (ht : TableAt mem r 3 p) : p = r := by
  cases ht with
  | root => rfl
  | next ht _ _ _ => exact absurd ht.level_le (by decide)

include h in
theorem Shape.table_two (ht : TableAt mem r 2 p) : p = pdptOf mem r := by
  cases ht with
  | @next _ t i ht hi hp hl =>
    obtain rfl := ht.eq_root
    by_cases hi0 : i = 0
    · rw [hi0]; rfl
    · exact absurd hp (by simp [h.pml4_only i hi0 hi])

include h in
theorem Shape.table_one (ht : TableAt mem r 1 p) :
    ∃ k, k < 512 ∧ (mem (pdptOf mem r) k).present = true ∧ p = pdOf mem r k := by
  cases ht with
  | @next _ t k ht hi hp hl =>
    obtain rfl := h.table_two ht
    exact ⟨k, hi, hp, rfl⟩

include h in
theorem Shape.directory {k : Nat} (hlt : k < 512) (hp : (mem (pdptOf mem r) k).present = true) :
    HasPd mem r k ∨ ∃ t, k ≠ 0 ∧ kernelDirectory k = some t ∧ pdOf mem r k = kernel.table t := by
  by_cases hk0 : k = 0
  · exact .inl ⟨hlt, .inl hk0, hp⟩
  · cases hkd : kernelDirectory k with
    | none => exact .inl ⟨hlt, .inr hkd, hp⟩
    | some t => exact .inr ⟨t, hk0, rfl, (h.shared k t hk0 hkd).2⟩

include h hk in
theorem Shape.table_zero (ht : TableAt mem r 0 p) :
    ∃ k j, HasPt mem r k j ∧ p = ptOf mem r k j := by
  cases ht with
  | @next _ t j ht hi hp hl =>
    obtain ⟨k, hlt, hpd, rfl⟩ := h.table_one ht
    rcases h.directory hlt hpd with hpd | ⟨t, hk0, hkd, ht⟩
    · exact ⟨k, j, ⟨hpd, hi, hp, hl rfl⟩, rfl⟩
    · -- the kernel's directories have no page tables
      have hlarge := (initPageTables_shared kernel hk0 hkd j).2.1
      rw [← hk, ← ht, hl rfl] at hlarge
      exact absurd hlarge (by simp)

include h hk in
theorem Shape.userMapped (hp : UserMapped mem r p) :
    (∃ role, own p = some (r, role)) ∨ ¬ InPool p := by
  cases hp with
  | small ht hi hp hu =>
    obtain ⟨k, j, hpt, rfl⟩ := h.table_zero hk ht
    rcases h.leaf k j _ hpt hi hp with hout | ⟨-, hown⟩
    · exact .inr hout
    · exact .inl ⟨_, hown⟩
  | @large t j p ht hi hp hl hu lo hi' =>
    refine .inr ?_
    obtain ⟨k, hlt, hpd, rfl⟩ := h.table_one ht
    rcases h.directory hlt hpd with hpd | ⟨t, hk0, hkd, ht⟩
    · by_cases hk0 : k = 0
      · subst hk0
        by_cases hw : j = 32 ∨ j = 33
        · exact h.window_large j hw hl p lo hi'
        · rw [not_or] at hw
          exact absurd hu (by simp [(h.identity _ hi hw.1 hw.2).2.2])
      · exact absurd hl (by simp [h.pd_small k _ hk0 hpd hi hp])
    · have huser := (initPageTables_shared kernel hk0 hkd j).2.2
      rw [← hk, ← ht, hu] at huser
      exact absurd huser (by simp)

include h hk in
theorem Shape.reaches (hp : Reaches mem r p) :
    (∃ role, own p = some (r, role)) ∨ (∃ t, p = kernel.table t) ∨ ¬ InPool p := by
  rcases hp with ⟨level, ht⟩ | hu
  · match level, ht with
    | 0, ht =>
      obtain ⟨k, j, hpt, rfl⟩ := h.table_zero hk ht
      exact .inl ⟨_, h.pt_own k j hpt⟩
    | 1, ht =>
      obtain ⟨k, hlt, hpd, rfl⟩ := h.table_one ht
      rcases h.directory hlt hpd with hpd | ⟨t, -, -, ht⟩
      · exact .inl ⟨_, h.pd_own k hpd⟩
      · exact .inr (.inl ⟨t, ht⟩)
    | 2, ht =>
      obtain rfl := h.table_two ht
      exact .inl ⟨_, h.pdpt_own⟩
    | 3, ht =>
      rw [ht.eq_root]
      exact .inl ⟨_, h.root⟩
    | n + 4, ht => exact absurd ht.level_le (by omega)
  · rcases h.userMapped hk hu with hown | hout
    · exact .inl hown
    · exact .inr (.inr hout)

end Reach

theorem Owned.frameUsed (h : Owned kernel own s) {i p : Nat} (hi : (s.spaces i).active = true)
    (hp : Reaches s.mem (s.spaces i).pml4Phys p) (hpool : InPool p)
    (hk : ∀ t, p ≠ kernel.table t) : FrameUsed s p := by
  rcases (h.shape i hi).reaches h.kernel hp with ⟨role, hown⟩ | ⟨t, ht⟩ | hout
  · exact h.used i hi p role hown
  · exact absurd ht (hk t)
  · exact absurd hpool hout

theorem Owned.kernel_free (h : Owned kernel own s) (t : Fin 9) :
    ¬ FrameUsed s (kernel.table t) := by
  have himage := kernel.inImage t
  have hfree := h.free (kernel.table t - frameBasePhys)
    (Nat.le_trans h.cursor_le (by unfold framesBelowKernel frameBasePhys; omega))
  unfold FrameUsed
  rw [hfree]
  exact Bool.false_ne_true

theorem Owned.kernel_unused (h : Owned kernel own s) {i : Nat} (hi : (s.spaces i).active = true) :
    Reaches s.mem (s.spaces i).pml4Phys (kernel.table 3) ∧ InPool (kernel.table 3) ∧
      ¬ FrameUsed s (kernel.table 3) := by
  have hshape := h.shape i hi
  have himage := kernel.inImage 3
  obtain ⟨hp, ht⟩ := hshape.shared 1 3 (by decide) rfl
  refine ⟨.inl ⟨1, ?_⟩, ?_, h.kernel_free 3⟩
  · rw [← ht]
    exact .next (.next .root (by decide) hshape.pdpt_present (fun h => nomatch h)) (by decide) hp
      (fun h => nomatch h)
  · unfold InPool frameBasePhys frameTotalCount
    omega

/-- The rule for a change of one address space: new frames become its own, the frames of the others
and the kernel's tables are not touched, and it has its shape afterwards. -/
theorem Owned.change (h : Owned kernel own s) {i : Nat} (hi : (s.spaces i).active = true)
    (hcursor : s'.frames.cursor ≤ framesBelowKernel)
    (hfree : ∀ n, s'.frames.cursor ≤ n → s'.frames.used n = false) (hle : s.frames.cursor ≤
      s'.frames.cursor) (hused : ∀ n, s.frames.used n = true → s'.frames.used n = true)
    (hext : ∀ p x, own p = some x → own' p = some x)
    (hnew : ∀ p x, own' p = some x → own p = some x ∨ ((∃ role, x = ((s.spaces i).pml4Phys, role)) ∧
      frameBasePhys ≤ p ∧ p < frameBasePhys + s'.frames.cursor ∧ FrameUsed s' p))
    (hother : ∀ p r role, own p = some (r, role) → r ≠ (s.spaces i).pml4Phys → s'.mem p = s.mem p)
    (hkernel : ∀ t, s'.mem (kernel.table t) = s.mem (kernel.table t))
    (hactive : ∀ j, (s'.spaces j).active = (s.spaces j).active)
    (hroot : ∀ j, (s'.spaces j).pml4Phys = (s.spaces j).pml4Phys)
    (htracked : ∀ j, ∀ p ∈ (s'.spaces j).ptPages, p ∈ (s.spaces j).ptPages ∨
      (j = i ∧ ∃ role, own' p = some ((s.spaces i).pml4Phys, role)))
    (hshape : Shape kernel own' s'.mem (s.spaces i).pml4Phys) : Owned kernel own' s' := by
  refine ⟨hcursor, hfree, ?_, ?_, ?_, ?_, ?_, ?_, ?_⟩
  · intro p x hp
    rcases hnew p x hp with hp | ⟨-, h1, h2, -⟩
    · obtain ⟨h1, h2⟩ := h.below p x hp
      exact ⟨h1, by omega⟩
    · exact ⟨h1, h2⟩
  · intro j hj p role hp
    rw [hactive] at hj
    rw [hroot] at hp
    rcases hnew p _ hp with hp | ⟨-, -, -, hu⟩
    · exact hused _ (h.used j hj p role hp)
    · exact hu
  · intro j k hj hk hjk
    rw [hactive] at hj hk
    rw [hroot, hroot] at hjk
    exact h.distinct j k hj hk hjk
  · intro j hj
    rw [hactive] at hj
    rw [hroot]
    by_cases hij : j = i
    · rw [hij]; exact hshape
    · have hne : (s.spaces j).pml4Phys ≠ (s.spaces i).pml4Phys :=
        fun he => hij (h.distinct j i hj hi he)
      exact (h.shape j hj).frame (fun p role hp => hother p _ role hp hne) hext
  · intro j hj p hp
    rw [hactive] at hj
    rw [hroot]
    rcases htracked j p hp with hp | ⟨rfl, hp⟩
    · obtain ⟨role, hp⟩ := h.tracked j hj p hp
      exact ⟨role, hext p _ hp⟩
    · exact hp
  · intro t
    rw [hkernel]
    exact h.kernel t
  · intro p r role hp
    rcases hnew p _ hp with hp | ⟨⟨role', hx⟩, -⟩
    · exact hext _ _ (h.rooted p r role hp)
    · rw [(Prod.mk.inj hx).1]
      exact hext _ _ (h.shape i hi).root

theorem Owned.rewrite (h : Owned kernel own s) {i : Nat} (hi : (s.spaces i).active = true)
    (hother : ∀ p r role, own p = some (r, role) → r ≠ (s.spaces i).pml4Phys → mem' p = s.mem p)
    (hkernel : ∀ t, mem' (kernel.table t) = s.mem (kernel.table t))
    (hshape : Shape kernel own mem' (s.spaces i).pml4Phys) :
    Owned kernel own { s with mem := mem' } :=
  h.change hi h.cursor_le h.free (Nat.le_refl _) (fun _ h => h) (fun _ _ h => h) (fun _ _ h => .inl h) hother hkernel
    (fun _ => rfl) (fun _ => rfl) (fun _ _ h => .inl h) hshape

theorem Owned.bookkeeping (h : Owned kernel own s) (hframes : s'.frames = s.frames)
    (hmem : s'.mem = s.mem) (hactive : ∀ j, (s'.spaces j).active = (s.spaces j).active)
    (hroot : ∀ j, (s'.spaces j).pml4Phys = (s.spaces j).pml4Phys)
    (htracked : ∀ j, (s'.spaces j).ptPages = (s.spaces j).ptPages) : Owned kernel own s' := by
  refine ⟨hframes ▸ h.cursor_le, hframes ▸ h.free, hframes ▸ h.below, ?_, ?_, ?_, ?_,
    hmem ▸ h.kernel, h.rooted⟩
  · intro i hi p role hp
    rw [hactive] at hi
    rw [hroot] at hp
    have := h.used i hi p role hp
    unfold FrameUsed at this ⊢
    rwa [hframes]
  · intro i j hi hj hij
    rw [hactive] at hi hj
    rw [hroot, hroot] at hij
    exact h.distinct i j hi hj hij
  · intro i hi
    rw [hactive] at hi
    rw [hroot, hmem]
    exact h.shape i hi
  · intro i hi p hp
    rw [hactive] at hi
    rw [htracked] at hp
    rw [hroot]
    exact h.tracked i hi p hp

theorem Owned.ne_kernel (h : Owned kernel own s) {x : Nat × Role} (hp : own p = some x)
    (t : Fin 9) :
    kernel.table t ≠ p := by
  have h1 := h.below p x hp
  have h2 := h.cursor_le
  have h3 := kernel.inImage t
  unfold frameBasePhys at h1
  unfold framesBelowKernel at h2
  omega

section Write

variable (h : Owned kernel own s) {i : Nat} (hi : (s.spaces i).active = true)

include h hi in
theorem Owned.write {p n : Nat} {role : Role} (hp : own p = some ((s.spaces i).pml4Phys, role))
    (hshape : Shape kernel own (s.write p n e).mem (s.spaces i).pml4Phys) :
    Owned kernel own (s.write p n e) := by
  apply h.rewrite hi
  · intro q r role' hq hr
    funext j
    have hqp : q ≠ p := by
      rintro rfl
      rw [hp] at hq
      exact hr (by simpa using (congrArg Prod.fst (Option.some.inj hq)).symm)
    exact if_neg (fun hc => hqp hc.1)
  · intro t
    funext j
    exact if_neg (fun hc => h.ne_kernel hp t hc.1)
  · exact hshape

end Write

theorem Shape.write_other {p q n : Nat} {role role' : Role} (hq : own q = some (r, role))
    (hp : own p = some (r, role')) (hrole : role' ≠ role) : (s.write q n e).mem p = s.mem p := by
  funext m
  refine if_neg (fun hc => hrole ?_)
  rw [hc.1, hq] at hp
  exact (congrArg Prod.snd (Option.some.inj hp)).symm

theorem Shape.write_pte (h : Shape kernel own s.mem r) {k j n : Nat} (hpt : HasPt s.mem r k j)
    (he : n < 512 → e.present = true → ¬ InPool e.frame ∨ (k = 0 ∧ own e.frame = some (r, .copy))) :
    Shape kernel own (s.write (ptOf s.mem r k j) n e).mem r := by
  have hq := h.pt_own k j hpt
  refine h.frame_leaf (fun p role hp hrole => Shape.write_other hq hp (hrole k j))
    (fun _ _ h => h) ?_
  intro l m o hl ho hpres
  by_cases hc : ptOf s.mem r l m = ptOf s.mem r k j ∧ o = n
  · -- the entry that was written
    have hlk : l = k := by
      have hl' := h.pt_own l m hl
      rw [hc.1, hq] at hl'
      exact (Role.pt.inj (congrArg Prod.snd (Option.some.inj hl'))).1.symm
    simp only [Vm.write, hc, and_self, if_true] at hpres ⊢
    rw [hlk]
    exact he (hc.2 ▸ ho) hpres
  · simp only [Vm.write, if_neg hc] at hpres ⊢
    exact h.leaf l m o hl ho hpres

theorem Shape.write_window (h : Shape kernel own s.mem r) {j : Nat} (hj : j = 32 ∨ j = 33)
    (hpres : e.present = true) (hlarge : e.large = true)
    (hout : ∀ p, e.frame / 512 * 512 ≤ p → p < e.frame / 512 * 512 + 512 → ¬ InPool p) :
    Shape kernel own (s.write (pdOf s.mem r 0) j e).mem r := by
  have hpd : HasPd s.mem r 0 := ⟨by decide, .inl rfl, h.pd0_present⟩
  refine h.frame_pde (e := e) (j := j) hpd (by omega) (fun p role hp hrole => Shape.write_other (h.pd_own 0 hpd) hp hrole)
    ?_ (fun _ _ h => h) (fun _ => ⟨hj, hpres, fun _ => hout⟩) (fun hk => absurd rfl hk) ?_
  · intro m
    simp only [Vm.write, true_and]
  · intro _ hsmall
    rw [hlarge] at hsmall
    exact nomatch hsmall

end Monios.Analysis
