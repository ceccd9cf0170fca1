import Monios.Analysis.PageTables

/-!
# Runs of the address-space calls

Every call keeps the ownership of frames, as long as a fork finds its parent's window unsplit and
the allocator's cursor stays below the kernel. What an active address space reaches is then marked
used, but for the kernel's own directories, which never are.
-/

set_option autoImplicit false

namespace Monios.Analysis

open Monios.Library Monios.Model

variable {kernel : KernelTables} {own : Owner} {s s' : Vm} {i : Nat}

theorem Shape.vmGetPd0_eq (h : Shape kernel own s.mem (s.spaces i).pml4Phys) :
    vmGetPd0 s i = some (pdOf s.mem (s.spaces i).pml4Phys 0) := by
  have h1 := h.pdpt_present
  have h2 := h.pd0_present
  unfold pdptOf at h2
  unfold vmGetPd0
  simp only [h1, h2, Bool.not_true, if_neg Bool.false_ne_true]
  rfl

/-- A fault on a shared page gives the space pages of its own. -/
theorem Owned.vmHandleCowFault (h : Owned kernel own s) {faultAddr errorCode : Nat}
    (hroom : s.frames.cursor + 513 ≤ framesBelowKernel) :
    ∃ own', Owned kernel own' (vmHandleCowFault s i faultAddr errorCode).2 := by
  unfold Model.vmHandleCowFault
  split
  · exact ⟨own, h⟩
  · next hc =>
      have hi : (s.spaces i).active = true := by
        simp only [Bool.or_eq_true, Bool.not_eq_true', not_or, Bool.not_eq_false] at hc
        exact hc.1.1
      rw [(h.shape i hi).vmGetPd0_eq]
      simp only []
      split
      · next hw =>
          apply h.vmSplitWindow hi hroom
          unfold pdIdx
          unfold vmUserBase vmUserLimit at hw
          omega
      · split
        · next hd =>
            obtain ⟨pde, hpde, hlarge⟩ := h.demand_large hi hd.1 hd.2
            unfold vmCopyDemandPage vmPageTable
            rw [hpde]
            simp only [hlarge, if_true]
            exact ⟨own, h⟩
        · exact ⟨own, h⟩

/-- A page fault keeps the owners. -/
theorem Owned.vmHandlePageFault (h : Owned kernel own s) {current : Option Nat}
    {faultAddr errorCode : Nat}
    (hroom : s.frames.cursor + (if errorCode.testBit 0 then 513 else 3) ≤ framesBelowKernel) :
    ∃ own', Owned kernel own' (vmHandlePageFault s current faultAddr errorCode).2 := by
  unfold Model.vmHandlePageFault
  cases current with
  | none => exact ⟨own, h⟩
  | some i =>
    simp only []
    split
    · exact ⟨own, h⟩
    · next hc =>
        have hi : (s.spaces i).active = true := by
          simp only [Bool.or_eq_true, Bool.not_eq_true', not_or, Bool.not_eq_false] at hc
          exact hc.2
        split
        · next hpres =>
            rw [if_pos hpres] at hroom
            exact h.vmHandleCowFault hroom
        · next hpres =>
            rw [if_neg hpres] at hroom
            split
            · exact ⟨own, h⟩
            · next haddr =>
                rw [not_or, Nat.not_lt, Nat.not_le] at haddr
                rw [h.frameAlloc (by omega)]
                simp only []
                have h1 := (h.grab (by omega)).fill h.fresh_unowned (freshPage_ne_kernel kernel (by omega)) (fun _ => {})
                obtain ⟨pde, hpde, hlarge⟩ := h1.demand_large (i := i) hi haddr.1 haddr.2
                have hmap : Model.vmMapPage ((Analysis.grab s).setPage (freshPage s) fun _ => {}) i faultAddr (freshPage s)
                    { present := true, writable := true, user := true } =
                    (false, (Analysis.grab s).setPage (freshPage s) fun _ => {}) := by
                  unfold Model.vmMapPage
                  have hi' : (((Analysis.grab s).setPage (freshPage s) fun _ => {}).spaces i).active = true := hi
                  rw [hi', vmWalkAlloc_closed (.inr ⟨pde, hpde, hlarge⟩)]
                  rfl
                rw [hmap]
                exact ⟨own, h1.frameFree h.fresh_unowned⟩

structure Frees (S : Nat → Prop) (fr fr' : FramePool) : Prop where
  cursor : fr'.cursor = fr.cursor
  used : ∀ n, fr.used n = false → fr'.used n = false
  other : ∀ q, frameBasePhys ≤ q → ¬ S q → fr.used (q - frameBasePhys) = true → fr'.used (q - frameBasePhys) = true

theorem Frees.refl (S : Nat → Prop) (fr : FramePool) : Frees S fr fr :=
  ⟨rfl, fun _ h => h, fun _ _ _ h => h⟩

/-- Pages freed in two steps. -/
theorem Frees.trans {S : Nat → Prop} {fr fr' fr'' : FramePool} (h : Frees S fr fr')
    (h' : Frees S fr' fr'') : Frees S fr fr'' :=
  ⟨h'.cursor.trans h.cursor, fun n hn => h'.used n (h.used n hn), fun q hq hS hu => h'.other q hq hS (h.other q hq hS hu)⟩

theorem Frees.free {S : Nat → Prop} (fr : FramePool) {p : Nat} (hp : S p ∨ ¬ InPool p) :
    Frees S fr (fr.free p) := by
  refine ⟨FramePool.free_cursor fr p, fun n hn => FramePool.free_used_false hn, ?_⟩
  intro q hq hS hu
  rcases hp with hp | hp
  · refine FramePool.free_used_other hq ?_ hu
    rintro rfl
    exact hS hp
  · unfold InPool at hp
    unfold FramePool.free
    rw [if_neg hp]
    exact hu

/-- Pages freed in a loop. -/
theorem Frees.foldl {α : Type} {S : Nat → Prop} {f : FramePool → α → FramePool} (l : List α)
    (fr : FramePool) (hf : ∀ fr, ∀ x ∈ l, Frees S fr (f fr x)) : Frees S fr (l.foldl f fr) := by
  induction l generalizing fr with
  | nil => exact .refl S fr
  | cons x l ih =>
    exact (hf fr x (List.mem_cons_self ..)).trans (ih _ fun fr y hy => hf fr y (List.mem_cons_of_mem _ hy))

/-- The pages of a space that is gone may be freed. -/
theorem Owned.remove (h : Owned kernel own s) {S : Nat → Prop} {fr : FramePool} {a : AddressSpace}
    {chunks : Nat → Bool} (ha : a.active = false) (hfr : Frees S s.frames fr)
    (hS : ∀ j, j ≠ i → (s.spaces j).active = true →
      ∀ p role, own p = some ((s.spaces j).pml4Phys, role) → ¬ S p) :
    Owned kernel own (({ s with frames := fr, userChunks := chunks }).setSpace i a) := by
  have hother : ∀ j, ((({ s with frames := fr, userChunks := chunks } : Vm).setSpace i a).spaces j).active = true →
      j ≠ i ∧ (({ s with frames := fr, userChunks := chunks } : Vm).setSpace i a).spaces j = s.spaces j := by
    intro j hj
    have hne : j ≠ i := by
      rintro rfl
      simp [Vm.setSpace, ha] at hj
    exact ⟨hne, if_neg hne⟩
  refine ⟨?_, ?_, ?_, ?_, ?_, ?_, ?_, h.kernel, h.rooted⟩
  · show fr.cursor ≤ framesBelowKernel
    rw [hfr.cursor]; exact h.cursor_le
  · intro n hn
    change fr.cursor ≤ n at hn
    rw [hfr.cursor] at hn
    exact hfr.used n (h.free n hn)
  · show ∀ p x, own p = some x → frameBasePhys ≤ p ∧ p < frameBasePhys + fr.cursor
    rw [hfr.cursor]; exact h.below
  · intro j hj p role hp
    obtain ⟨hne, heq⟩ := hother j hj
    rw [heq] at hj hp
    exact hfr.other p (h.below p _ hp).1 (hS j hne hj p role hp) (h.used j hj p role hp)
  · intro j k hj hk hjk
    obtain ⟨-, hej⟩ := hother j hj
    obtain ⟨-, hek⟩ := hother k hk
    rw [hej] at hj hjk
    rw [hek] at hk hjk
    exact h.distinct j k hj hk hjk
  · intro j hj
    obtain ⟨-, heq⟩ := hother j hj
    rw [heq] at hj ⊢
    exact h.shape j hj
  · intro j hj
    obtain ⟨-, heq⟩ := hother j hj
    rw [heq] at hj ⊢
    exact h.tracked j hj

section Destroy

variable (h : Owned kernel own s) (hi : (s.spaces i).active = true)

def OwnFrame (own : Owner) (r p : Nat) : Prop := ∃ role, own p = some (r, role)

include h hi in
/-- A page that a page table of the space names is the space's own. -/
theorem Owned.leaf_own {k j n : Nat} (hpt : HasPt s.mem (s.spaces i).pml4Phys k j) (hn : n < 512)
    (hp : (s.mem (ptOf s.mem (s.spaces i).pml4Phys k j) n).present = true) :
    OwnFrame own (s.spaces i).pml4Phys (s.mem (ptOf s.mem (s.spaces i).pml4Phys k j) n).frame ∨
      ¬ InPool (s.mem (ptOf s.mem (s.spaces i).pml4Phys k j) n).frame := by
  rcases (h.shape i hi).leaf k j n hpt hn hp with hout | ⟨-, hown⟩
  · exact .inr hout
  · exact .inl ⟨_, hown⟩

include h hi in
/-- The page table of an address is the space's own. -/
theorem Owned.vmPageTable_own {vaddr pt : Nat}
    (hw : vmPageTable s.mem (s.spaces i).pml4Phys vaddr = some pt) :
    ∃ k j, HasPt s.mem (s.spaces i).pml4Phys k j ∧ pt = ptOf s.mem (s.spaces i).pml4Phys k j := by
  have hshape := h.shape i hi
  unfold vmPageTable vmDirectoryEntry at hw
  simp only [] at hw
  split at hw
  · next pde hpde =>
      split at hw
      · exact nomatch hw
      · next hl =>
          split at hpde
          · exact nomatch hpde
          · next h4 =>
              split at hpde
              · exact nomatch hpde
              · next h3 =>
                  split at hpde
                  · exact nomatch hpde
                  · next h2 =>
                      simp only [Bool.not_eq_true', Bool.not_eq_false] at h4 h3 h2
                      obtain rfl := Option.some.inj hpde
                      obtain rfl := Option.some.inj hw
                      have ht1 : TableAt s.mem (s.spaces i).pml4Phys 2 _ :=
                        .next .root (pml4Idx_lt vaddr) h4 (fun h => nomatch h)
                      have ht2 : TableAt s.mem (s.spaces i).pml4Phys 1 _ :=
                        .next ht1 (pdptIdx_lt vaddr) h3 (fun h => nomatch h)
                      have ht3 : TableAt s.mem (s.spaces i).pml4Phys 0 _ :=
                        .next ht2 (pdIdx_lt vaddr) h2 (fun _ => by simpa using hl)
                      exact hshape.table_zero h.kernel ht3
  · exact nomatch hw

include h hi in
/-- Freeing a demand page frees a page of the space. -/
theorem Owned.frees_demand (fr : FramePool) (vaddr : Nat) :
    Frees (OwnFrame own (s.spaces i).pml4Phys) fr
      (vmFreeDemandPage s.mem (s.spaces i).pml4Phys fr vaddr) := by
  unfold vmFreeDemandPage
  split
  · exact .refl _ fr
  · next pt hpt =>
      obtain ⟨k, j, hpt', rfl⟩ := h.vmPageTable_own hi hpt
      simp only []
      split
      · exact .refl _ fr
      · next hc =>
          simp only [Bool.or_eq_true, Bool.not_eq_true', not_or, Bool.not_eq_false] at hc
          exact .free fr (h.leaf_own hi hpt' (ptIdx_lt vaddr) hc.1)

include h hi in
/-- Freeing the window frees pages of the space. -/
theorem Owned.frees_window (fr : FramePool) {j : Nat} (hj : j < 512) :
    Frees (OwnFrame own (s.spaces i).pml4Phys) fr
      (vmFreeWindow s.mem (pdOf s.mem (s.spaces i).pml4Phys 0) fr j) := by
  have hshape := h.shape i hi
  unfold vmFreeWindow
  simp only []
  split
  · next hc =>
      simp only [Bool.and_eq_true, Bool.not_eq_true'] at hc
      have hpt : HasPt s.mem (s.spaces i).pml4Phys 0 j :=
        ⟨⟨by decide, .inl rfl, hshape.pd0_present⟩, hj, hc.1, hc.2⟩
      refine (Frees.foldl _ fr ?_).trans (.free _ (.inl ⟨_, hshape.pt_own 0 j hpt⟩))
      intro fr n hn
      split
      · next hp => exact .free fr (h.leaf_own hi hpt (List.mem_range.mp hn) hp)
      · exact .refl _ fr
  · exact .refl _ fr

include h hi in
/-- The tables that were noted are pages of the space. -/
theorem Owned.frees_tracked (fr : FramePool) : Frees (OwnFrame own (s.spaces i).pml4Phys) fr
    ((s.spaces i).ptPages.foldl (fun frames page => if page ≠ 0 then frames.free page else frames) fr) := by
  refine Frees.foldl _ fr ?_
  intro fr p hp
  split
  · exact .free fr (.inl (h.tracked i hi p hp))
  · exact .refl _ fr

end Destroy

/-- `vm_destroy_address_space` keeps the owners of the other spaces. -/
theorem Owned.vmDestroyAddressSpace (h : Owned kernel own s) (i : Nat) :
    Owned kernel own (vmDestroyAddressSpace s i) := by
  unfold Model.vmDestroyAddressSpace
  simp only []
  split
  · exact h
  · next hi =>
      simp only [Bool.not_eq_true', Bool.not_eq_false] at hi
      have hS : ∀ j, j ≠ i → (s.spaces j).active = true → ∀ p role, own p =
          some ((s.spaces j).pml4Phys, role) →
          ¬ OwnFrame own (s.spaces i).pml4Phys p := by
        rintro j hne hj p role hp ⟨role', hp'⟩
        rw [hp] at hp'
        exact hne (h.distinct j i hj hi (congrArg Prod.fst (Option.some.inj hp')))
      have hfr := (Frees.foldl (s.spaces i).demandPages s.frames
        (fun fr v _ => h.frees_demand hi fr v)).trans (h.frees_tracked hi _)
      split
      · rw [(h.shape i hi).vmGetPd0_eq]
        refine h.remove rfl (hfr.trans (Frees.foldl [32, 33] _ ?_)) hS
        intro fr j hj
        refine h.frees_window hi fr ?_
        simp only [List.mem_cons, List.not_mem_nil, or_false] at hj
        omega
      · unfold vmFreeUserChunk
        split
        · exact h.remove rfl hfr hS
        · exact h.remove rfl hfr hS

section Share

variable {parent child : Nat}

/-- An entry of the window may be marked for copying. -/
theorem Owned.write_window (h : Owned kernel own s) (hi : (s.spaces i).active = true) {j : Nat}
    (hj : j = 32 ∨ j = 33) {e : PageEntry} (hpres : e.present = true) (hlarge : e.large = true)
    (hout : ∀ p, e.frame / 512 * 512 ≤ p → p < e.frame / 512 * 512 + 512 → ¬ InPool p) :
    Owned kernel own (s.write (pdOf s.mem (s.spaces i).pml4Phys 0) j e) ∧
      ∀ k, (s.spaces k).active = true →
      pdOf (s.write (pdOf s.mem (s.spaces i).pml4Phys 0) j e).mem (s.spaces k).pml4Phys 0 =
        pdOf s.mem (s.spaces k).pml4Phys 0 := by
  have hshape := h.shape i hi
  have hown := hshape.pd_own 0 ⟨by decide, .inl rfl, hshape.pd0_present⟩
  refine ⟨h.write hi hown (hshape.write_window hj hpres hlarge hout), ?_⟩
  intro k hk
  -- the PML4 and the PDPT of an address space are not its first directory
  have hpage : ∀ p role, own p = some ((s.spaces k).pml4Phys, role) → role ≠ .pd 0 →
      (s.write (pdOf s.mem (s.spaces i).pml4Phys 0) j e).mem p = s.mem p := by
    intro p role hp hrole
    funext m
    refine if_neg ?_
    rintro ⟨rfl, -⟩
    rw [hown] at hp
    exact hrole (congrArg Prod.snd (Option.some.inj hp)).symm
  have hpdpt : pdptOf (s.write (pdOf s.mem (s.spaces i).pml4Phys 0) j e).mem (s.spaces k).pml4Phys =
      pdptOf s.mem (s.spaces k).pml4Phys := by
    rw [pdptOf, hpage _ _ (h.shape k hk).root (by simp), ← pdptOf]
  conv => lhs; rw [pdOf]
  rw [hpdpt, hpage _ _ (h.shape k hk).pdpt_own (by simp), ← pdOf]

theorem write_large {p q m n : Nat} {e : PageEntry} (he : e.large = true)
    (h : (s.mem p m).large = true) :
    ((s.write q n e).mem p m).large = true := by
  simp only [Vm.write]
  split
  · exact he
  · exact h

theorem write_large_self {p m : Nat} {e : PageEntry} (he : e.large = true) :
    ((s.write p m e).mem p m).large = true := by
  simpa only [Vm.write, and_self, if_true] using he

structure Sharing (kernel : KernelTables) (own : Owner) (parent child ppd cpd : Nat) (s : Vm) : Prop where
  owned : Owned kernel own s
  parent_active : (s.spaces parent).active = true
  child_active : (s.spaces child).active = true
  parent_pd : pdOf s.mem (s.spaces parent).pml4Phys 0 = ppd
  child_pd : pdOf s.mem (s.spaces child).pml4Phys 0 = cpd
  large : ∀ j, j = 32 ∨ j = 33 → (s.mem ppd j).large = true

/-- Marking an entry in both spaces keeps them sharing. -/
theorem Sharing.write {ppd cpd : Nat} (h : Sharing kernel own parent child ppd cpd s) {j : Nat}
    (hj : j = 32 ∨ j = 33) {k : Nat} (hk : (s.spaces k).active = true) :
    Sharing kernel own parent child ppd cpd
      (s.write (pdOf s.mem (s.spaces k).pml4Phys 0) j (cowEntry (s.mem ppd j))) := by
  have hparent := h.owned.shape parent h.parent_active
  have hwin := hparent.window j hj
  have hout := hparent.window_large j hj
  rw [h.parent_pd] at hwin hout
  obtain ⟨h1, h2⟩ := h.owned.write_window hk hj (e := cowEntry (s.mem ppd j)) hwin (h.large j hj) (hout (h.large j hj))
  refine ⟨h1, h.parent_active, h.child_active, (h2 parent h.parent_active).trans h.parent_pd,
    (h2 child h.child_active).trans h.child_pd, ?_⟩
  exact fun m hm => write_large (h.large j hj) (h.large m hm)

/-- The whole window is shared. -/
theorem Sharing.window {ppd cpd : Nat} (h : Sharing kernel own parent child ppd cpd s) :
    Sharing kernel own parent child ppd cpd (vmCowShareWindow s ppd cpd) ∧
      ∀ j, j = 32 ∨ j = 33 → ((vmCowShareWindow s ppd cpd).mem cpd j).large = true := by
  have h32 : 32 = 32 ∨ 32 = 33 := .inl rfl
  have h33 : 33 = 32 ∨ 33 = 33 := .inr rfl
  unfold vmCowShareWindow
  simp only []
  have h1 := h.write h32 h.child_active
  rw [h.child_pd] at h1
  have h2 := h1.write h33 h1.child_active
  rw [h1.child_pd] at h2
  have h3 := h2.write h32 h2.parent_active
  rw [h2.parent_pd] at h3
  have h4 := h3.write h33 h3.parent_active
  rw [h3.parent_pd] at h4
  refine ⟨h4, ?_⟩
  -- everything that is written is large
  rintro j (rfl | rfl)
  · have e1 : ((s.write cpd 32 (cowEntry (s.mem ppd 32))).mem cpd 32).large = true :=
      write_large_self (h.large 32 h32)
    exact write_large (h3.large 33 h33) (write_large (h2.large 32 h32) (write_large (h1.large 33 h33) e1))
  · exact write_large (h3.large 33 h33) (write_large (h2.large 32 h32) (write_large_self (h1.large 33 h33)))

/-- Outside the window an address is mapped by the kernel's tables. -/
theorem Owned.vmGetMapping_outside (h : Owned kernel own s) (hi : (s.spaces i).active = true)
    {vaddr : Nat} (h4 : pml4Idx vaddr = 0) (hk0 : pdptIdx vaddr ≠ 0)
    (hkd : kernelDirectory (pdptIdx vaddr) = none) (hsrc : vmGetMapping s i vaddr ≠ 0) :
    HasPt s.mem (s.spaces i).pml4Phys (pdptIdx vaddr) (pdIdx vaddr) ∧
      ¬ InPool (vmGetMapping s i vaddr) := by
  have hshape := h.shape i hi
  unfold vmGetMapping vmDirectoryEntry at hsrc ⊢
  simp only [hi, h4, hshape.pdpt_present, Bool.not_true, Bool.false_eq_true, if_false] at hsrc ⊢
  cases h3 : (s.mem (s.mem (s.spaces i).pml4Phys 0).frame (pdptIdx vaddr)).present with
  | false => simp [h3] at hsrc
  | true =>
    have hpd : HasPd s.mem (s.spaces i).pml4Phys (pdptIdx vaddr) := ⟨pdptIdx_lt vaddr, .inr hkd, h3⟩
    cases h2 : (s.mem (pdOf s.mem (s.spaces i).pml4Phys (pdptIdx vaddr)) (pdIdx vaddr)).present with
    | false =>
      unfold pdOf pdptOf at h2
      simp [h3, h2] at hsrc
    | true =>
      have hsmall := hshape.pd_small _ _ hk0 hpd (pdIdx_lt vaddr) h2
      have hpt : HasPt s.mem (s.spaces i).pml4Phys (pdptIdx vaddr) (pdIdx vaddr) :=
        ⟨hpd, pdIdx_lt vaddr, h2, hsmall⟩
      refine ⟨hpt, ?_⟩
      have hleaf := hshape.leaf _ _ (ptIdx vaddr) hpt (ptIdx_lt vaddr)
      unfold pdOf pdptOf at h2 hsmall
      unfold ptOf pdOf pdptOf at hleaf
      simp only [h3, h2, hsmall, Bool.not_true, Bool.false_eq_true, if_false] at hsrc ⊢
      split at hsrc
      · exact absurd rfl hsrc
      · next hp =>
          simp only [Bool.not_eq_true', Bool.not_eq_false] at hp
          rw [hp]
          rcases hleaf hp with hout | ⟨h0, -⟩
          · simpa using hout
          · exact absurd h0 hk0

/-- Sharing the demand window keeps the owners. -/
theorem Owned.vmCowShareDemand (h : Owned kernel own s) (hp : (s.spaces parent).active = true)
    (hc : (s.spaces child).active = true) (hroom : s.frames.cursor + 2 ≤ framesBelowKernel)
    (hlarge : ∀ j, j = 32 ∨ j = 33 →
      (s.mem (pdOf s.mem (s.spaces child).pml4Phys 0) j).large = true) (vpage : Nat) :
    (∃ own', Owned kernel own' (vmCowShareDemand s parent child vpage)) ∧
    Keeps s (vmCowShareDemand s parent child vpage) ∧
    (vmCowShareDemand s parent child vpage).frames.cursor ≤ s.frames.cursor + 2 ∧
    (parent ≠ child → ((vmCowShareDemand s parent child vpage).spaces parent).demandPages =
      (s.spaces parent).demandPages) := by
  unfold Model.vmCowShareDemand
  simp only []
  split
  · exact ⟨⟨own, h⟩, .refl s, Nat.le_add_right _ _, fun _ => rfl⟩
  · next hsrc =>
      have hw := h.walkAlloc hc hroom vpage
      generalize vmWalkAlloc s child vpage = res at hw
      obtain ⟨_ | pt, s1⟩ := res
      · exact ⟨hw.owned, hw.keeps, hw.cursor, fun _ => hw.demand parent⟩
      · change PageWalk kernel s child vpage (some pt) s1 at hw
        obtain ⟨own', h1⟩ := hw.owned
        obtain ⟨h4, hpt, rfl⟩ := hw.table pt rfl
        -- in the first GiB the child has large pages only
        have hk0 : pdptIdx vpage ≠ 0 := by
          intro hk0
          rw [hk0] at hpt
          have hsmall := hpt.small
          rw [hw.keeps.window child hc _ (pdIdx_lt vpage)] at hsmall
          by_cases hj : pdIdx vpage = 32 ∨ pdIdx vpage = 33
          · rw [hlarge _ hj] at hsmall
            exact nomatch hsmall
          · rw [not_or] at hj
            rw [((h.shape child hc).identity _ (pdIdx_lt vpage) hj.1 hj.2).2.1] at hsmall
            exact nomatch hsmall
        have hkd : kernelDirectory (pdptIdx vpage) = none := hpt.pd.priv.resolve_left hk0
        obtain ⟨hppt, hout⟩ := h.vmGetMapping_outside hp h4 hk0 hkd hsrc
        rw [← hw.keeps.root child] at hpt ⊢
        -- the child's entry
        obtain ⟨h2, hkeeps2⟩ := h1.write_pte ((hw.keeps.active child).trans hc) hpt (n := ptIdx vpage)
          (e := { present := true, user := true, cow := true, frame := vmGetMapping s parent vpage }) (fun _ _ => .inl hout)
        simp only []
        generalize hs3 : Model.vmRecordDemand (s1.write (ptOf s1.mem (s1.spaces child).pml4Phys (pdptIdx vpage) (pdIdx vpage))
          (ptIdx vpage) { present := true, user := true, cow := true, frame := vmGetMapping s parent vpage }) child vpage = s3
        have h3 : Owned kernel own' s3 := hs3 ▸ h2.vmRecordDemand child vpage
        have hkeeps3 : Keeps s s3 := hs3 ▸ hw.keeps.trans (hkeeps2.trans (keeps_vmRecordDemand _ child vpage))
        have hframes3 : s3.frames = s1.frames := by
          rw [← hs3, vmRecordDemand_frames]
          rfl
        -- the parent's entry
        have hppt3 := (hkeeps3.pts parent hp _ _ hppt).1
        rw [← hkeeps3.root parent] at hppt3
        have hp3 := (hkeeps3.active parent).trans hp
        obtain ⟨h5, hkeeps5⟩ := h3.write_pte hp3 hppt3 (n := ptIdx vpage)
          (e := cowEntry (s3.mem (ptOf s3.mem (s3.spaces parent).pml4Phys (pdptIdx vpage) (pdIdx vpage)) (ptIdx vpage)))
          (fun hn hpres => (h3.shape parent hp3).leaf _ _ _ hppt3 hn hpres)
        rw [h4]
        refine ⟨⟨own', h5⟩, hkeeps3.trans hkeeps5, ?_, ?_⟩
        · show s3.frames.cursor ≤ _
          rw [hframes3]
          exact hw.cursor
        · intro hne
          show (s3.spaces parent).demandPages = _
          rw [← hs3, (vmRecordDemand_spaces _ child vpage parent).2.2.2 hne]
          exact hw.demand parent

def shareNth (parent child : Nat) (s : Vm) (n : Nat) : Vm :=
  match (s.spaces parent).demandPages[n]? with
  | some vpage => Model.vmCowShareDemand s parent child vpage
  | none => s

theorem Owned.shareDemand (h : Owned kernel own s) (hp : (s.spaces parent).active = true)
    (hc : (s.spaces child).active = true)
    (hlarge : ∀ j, j = 32 ∨ j = 33 →
      (s.mem (pdOf s.mem (s.spaces child).pml4Phys 0) j).large = true) {count : Nat}
    (hcount : count = if parent =
      child then vmDemandMaxPages else (s.spaces parent).demandPages.length)
    (hroom : s.frames.cursor + 2 * count ≤ framesBelowKernel) (n : Nat)
      (hn : n ≤ vmDemandMaxPages) :
    (∃ own', Owned kernel own' ((List.range n).foldl (shareNth parent child) s)) ∧
    Keeps s ((List.range n).foldl (shareNth parent child) s) ∧
    ((List.range n).foldl (shareNth parent child) s).frames.cursor ≤ s.frames.cursor +
      2 * min n count ∧
    (parent ≠ child →
      (((List.range n).foldl (shareNth parent child) s).spaces parent).demandPages =
      (s.spaces parent).demandPages) := by
  induction n with
  | zero => exact ⟨⟨own, h⟩, .refl s, Nat.le_add_right _ _, fun _ => rfl⟩
  | succ n ih =>
    obtain ⟨⟨own1, h1⟩, hkeeps, hcur, hdem⟩ := ih (by omega)
    rw [List.range_succ, List.foldl_append]
    generalize (List.range n).foldl (shareNth parent child) s = s1 at h1 hkeeps hcur hdem
    show (∃ own', Owned kernel own' (shareNth parent child s1 n)) ∧ Keeps s (shareNth parent child s1 n) ∧
      (shareNth parent child s1 n).frames.cursor ≤ _ ∧
      (parent ≠ child → ((shareNth parent child s1 n).spaces parent).demandPages = _)
    unfold shareNth
    split
    · next vpage hv =>
        have hlt : n < count := by
          rw [hcount]
          split
          · omega
          · next hne =>
              rw [← hdem hne]
              exact (List.getElem?_eq_some_iff.mp hv).1
        have hlarge1 : ∀ j, j = 32 ∨ j = 33 → (s1.mem (pdOf s1.mem (s1.spaces child).pml4Phys 0) j).large = true := by
          intro j hj
          rw [hkeeps.root, hkeeps.window child hc j (by omega)]
          exact hlarge j hj
        obtain ⟨hown, hkeeps', hcur', hdem'⟩ :=
          h1.vmCowShareDemand ((hkeeps.active parent).trans hp)
          ((hkeeps.active child).trans hc) (by omega) hlarge1 vpage
        exact ⟨hown, hkeeps.trans hkeeps', by omega, fun hne => (hdem' hne).trans (hdem hne)⟩
    · exact ⟨⟨own1, h1⟩, hkeeps, by omega, hdem⟩

/-- `vm_cow_share` keeps the owners when the pool has room. -/
theorem Owned.vmCowShare (h : Owned kernel own s)
    (hroom : s.frames.cursor +
      2 * (if parent = child then vmDemandMaxPages else (s.spaces parent).demandPages.length) ≤
      framesBelowKernel)
    (hunsplit : Unsplit s (.cowShare parent child)) :
    ∃ own', Owned kernel own' (vmCowShare s parent child).2 := by
  unfold Model.vmCowShare
  split
  · exact ⟨own, h⟩
  · next hc =>
      simp only [Bool.or_eq_true, Bool.not_eq_true', not_or, Bool.not_eq_false] at hc
      have hlarge := hunsplit hc.1 _ (h.shape parent hc.1).vmGetPd0_eq
      rw [(h.shape parent hc.1).vmGetPd0_eq, (h.shape child hc.2).vmGetPd0_eq]
      simp only []
      -- giving up the child's chunk touches no tables
      generalize hs1 : vmFreeUserChunk s (s.spaces child).userPhysBase = s1
      have hframes1 : s1.frames = s.frames := by
        rw [← hs1]
        unfold vmFreeUserChunk
        split <;> rfl
      have hmem1 : s1.mem = s.mem := by
        rw [← hs1]
        unfold vmFreeUserChunk
        split <;> rfl
      have hspaces1 : s1.spaces = s.spaces := by
        rw [← hs1]
        unfold vmFreeUserChunk
        split <;> rfl
      generalize hs2 : s1.setSpace child { s1.spaces child with userPhysBase := (s1.spaces parent).userPhysBase } = s2
      have hspaces2 : ∀ j, (s2.spaces j).active = (s.spaces j).active ∧ (s2.spaces j).pml4Phys =
          (s.spaces j).pml4Phys ∧
          (s2.spaces j).ptPages = (s.spaces j).ptPages ∧ (s2.spaces j).demandPages = (s.spaces j).demandPages := by
        intro j
        rw [← hs2, ← hspaces1]
        by_cases hj : j = child
        · subst hj
          simp [Vm.setSpace]
        · simp [Vm.setSpace, hj]
      have hmem2 : s2.mem = s.mem := by
        rw [← hs2]
        exact hmem1
      have hframes2 : s2.frames = s.frames := by
        rw [← hs2]
        exact hframes1
      have h2 : Owned kernel own s2 := h.bookkeeping hframes2 hmem2 (fun j => (hspaces2 j).1) (fun j => (hspaces2 j).2.1)
        (fun j => (hspaces2 j).2.2.1)
      have hsharing : Sharing kernel own parent child (pdOf s.mem (s.spaces parent).pml4Phys 0)
          (pdOf s.mem (s.spaces child).pml4Phys 0) s2 := by
        refine ⟨h2, (hspaces2 parent).1.trans hc.1, (hspaces2 child).1.trans hc.2, ?_, ?_, ?_⟩
        · rw [(hspaces2 parent).2.1, hmem2]
        · rw [(hspaces2 child).2.1, hmem2]
        · rw [hmem2]
          rintro j (rfl | rfl)
          · exact hlarge.1
          · exact hlarge.2
      obtain ⟨hs3, hlarge3⟩ := hsharing.window
      have hspaces3 : (vmCowShareWindow s2 (pdOf s.mem (s.spaces parent).pml4Phys 0)
        (pdOf s.mem (s.spaces child).pml4Phys 0)).spaces = s2.spaces := rfl
      have hframes3 : (vmCowShareWindow s2 (pdOf s.mem (s.spaces parent).pml4Phys 0)
        (pdOf s.mem (s.spaces child).pml4Phys 0)).frames = s2.frames := rfl
      generalize vmCowShareWindow s2 (pdOf s.mem (s.spaces parent).pml4Phys 0)
        (pdOf s.mem (s.spaces child).pml4Phys 0) = s3 at hs3 hlarge3 hspaces3 hframes3
      obtain ⟨⟨own4, h4⟩, -, -, -⟩ := hs3.owned.shareDemand hs3.parent_active hs3.child_active
        (fun j hj => by rw [hs3.child_pd]; exact hlarge3 j hj) rfl
        (by rw [hframes3, hframes2, hspaces3, (hspaces2 parent).2.2.2]; exact hroom) vmDemandMaxPages (Nat.le_refl _)
      change Owned kernel own4 ((List.range vmDemandMaxPages).foldl (fun s n =>
            match (s.spaces parent).demandPages[n]? with
            | some vpage => Model.vmCowShareDemand s parent child vpage
            | none => s) s3) at h4
      generalize (List.range vmDemandMaxPages).foldl (fun s n =>
            match (s.spaces parent).demandPages[n]? with
            | some vpage => Model.vmCowShareDemand s parent child vpage
            | none => s) s3 = s4 at h4
      -- the flags at the end
      have hflag : ∀ (s : Vm) (i : Nat), Owned kernel own4 s →
          Owned kernel own4 (s.setSpace i { s.spaces i with cowShared := true }) := by
        intro s i h
        refine h.bookkeeping rfl rfl ?_ ?_ ?_ <;>
        · intro j
          by_cases hj : j = i
          · subst hj
            simp [Vm.setSpace]
          · simp [Vm.setSpace, hj]
      exact ⟨own4, hflag _ child (hflag s4 parent h4)⟩

end Share

section Create

variable {q u : Nat} (hq : q + 2 < 0x2000) (hu : 0x8000 ≤ u)

include hq hu in
theorem vmBuildTables_root : (vmBuildTables kernel s q (q + 1) (q + 2) u).mem q =
    fun j => if j = 0 then userPage (q + 1) else {} := by
  funext j
  have hout : ¬ (u ≤ q ∧ q < u + vmUserChunkPages) := by omega
  simp [vmBuildTables, mmuClonePdpt, mmuClonePd0, Vm.write, Vm.setPage, hout]

include hq hu in
theorem vmBuildTables_pdpt : (vmBuildTables kernel s q (q + 1) (q + 2) u).mem (q + 1) =
    fun j => if j = 0 then userPage (q + 2) else s.mem (kernel.table 1) j := by
  funext j
  have hout : ¬ (u ≤ q + 1 ∧ q + 1 < u + vmUserChunkPages) := by omega
  have hk := kernel.inImage 1
  have h0 : kernel.table 1 ≠ q := by omega
  have h1 : kernel.table 1 ≠ q + 1 := by omega
  have h2 : kernel.table 1 ≠ q + 2 := by omega
  simp [vmBuildTables, mmuClonePdpt, mmuClonePd0, Vm.write, Vm.setPage, hout, h0, h1, h2]
  split <;> rfl

include hq hu in
theorem vmBuildTables_pd0 : (vmBuildTables kernel s q (q + 1) (q + 2) u).mem (q + 2) =
    fun j => if j = 33 then { userPage (u + 512) with large := true }
      else if j = 32 then { userPage u with large := true } else s.mem (kernel.table 2) j := by
  funext j
  have hout : ¬ (u ≤ q + 2 ∧ q + 2 < u + vmUserChunkPages) := by omega
  have hk := kernel.inImage 2
  have h0 : kernel.table 2 ≠ q := by omega
  have h1 : kernel.table 2 ≠ q + 1 := by omega
  have h2 : kernel.table 2 ≠ q + 2 := by omega
  by_cases h33 : j = 33
  · simp [vmBuildTables, Vm.write, hout, h33]
  · by_cases h32 : j = 32
    · simp [vmBuildTables, Vm.write, hout, h32]
    · simp [vmBuildTables, mmuClonePdpt, mmuClonePd0, Vm.write, Vm.setPage, hout, h0, h1, h2, h32,
        h33]

/-- Building the tables of a space changes its own pages only. -/
theorem vmBuildTables_other {p : Nat} (h0 : p ≠ q) (h1 : p ≠ q + 1) (h2 : p ≠ q + 2)
    (hout : ¬ (u ≤ p ∧ p < u + vmUserChunkPages)) :
    (vmBuildTables kernel s q (q + 1) (q + 2) u).mem p = s.mem p := by
  funext j
  simp [vmBuildTables, mmuClonePdpt, mmuClonePd0, Vm.write, Vm.setPage, hout, h0, h1, h2]

def giveTables (own : Owner) (q : Nat) : Owner := fun p =>
  if p = q then some (q, .pml4) else if p = q + 1 then some (q, .pdpt) else if p = q + 2 then some (q, .pd 0) else own p

include hq hu in
/-- The tables that are built have the shape of a space. -/
theorem shape_vmBuildTables (hk : ∀ t, s.mem (kernel.table t) = initPageTables kernel t) :
    Shape kernel (giveTables own q) (vmBuildTables kernel s q (q + 1) (q + 2) u).mem q := by
  have hroot : (vmBuildTables kernel s q (q + 1) (q + 2) u).mem q = _ := vmBuildTables_root hq hu
  have hpdpt : (vmBuildTables kernel s q (q + 1) (q + 2) u).mem (q + 1) = _ :=
    vmBuildTables_pdpt hq hu
  have hpd0 : (vmBuildTables kernel s q (q + 1) (q + 2) u).mem (q + 2) = _ :=
    vmBuildTables_pd0 hq hu
  generalize (vmBuildTables kernel s q (q + 1) (q + 2) u).mem = mem' at hroot hpdpt hpd0 ⊢
  have h1 : pdptOf mem' q = q + 1 := by
    unfold pdptOf
    rw [hroot]
    rfl
  have h2 : pdOf mem' q 0 = q + 2 := by
    unfold pdOf
    rw [h1, hpdpt]
    rfl
  have hfirst : ∀ k, k ≠ 0 → mem' (pdptOf mem' q) k = initPageTables kernel 1 k := by
    intro k hk0
    rw [h1, hpdpt, hk]
    exact if_neg hk0
  -- above the first GiB there are the kernel's directories only
  have honly : ∀ k, HasPd mem' q k → k = 0 := by
    intro k hpd
    by_contra hk0
    have hpres := hpd.present
    rw [hfirst k hk0] at hpres
    unfold initPageTables at hpres
    simp only [hpd.priv.resolve_left hk0] at hpres
    exact nomatch hpres
  -- and no page tables at all
  have hnopt : ∀ k j, ¬ HasPt mem' q k j := by
    intro k j hpt
    obtain rfl := honly k hpt.pd
    have hsmall := hpt.small
    rw [h2, hpd0] at hsmall
    simp only [] at hsmall
    split at hsmall
    · exact nomatch hsmall
    · split at hsmall
      · exact nomatch hsmall
      · next h33 h32 =>
          rw [hk] at hsmall
          simp [initPageTables, h32, h33, identityPage] at hsmall
  refine ⟨if_pos rfl, ?_, ?_, ?_, ?_, ?_, ?_, ?_, ?_, ?_, ?_, ?_, ?_⟩
  · rw [hroot]; rfl
  · rw [h1]
    unfold giveTables
    rw [if_neg (by omega), if_pos rfl]
  · intro i hi _
    rw [hroot]
    exact congrArg (fun e : PageEntry => e.present) (if_neg hi)
  · intro k t hk0 hkd
    unfold pdOf
    rw [hfirst k hk0]
    unfold initPageTables
    simp only [hkd, and_self]
  · rw [h1, hpdpt]; rfl
  · intro k hpd
    rw [honly k hpd, h2]
    unfold giveTables
    rw [if_neg (by omega), if_neg (by omega), if_pos rfl]
  · intro j _ h32 h33
    rw [h2, hpd0]
    simp only [if_neg h32, if_neg h33, hk]
    simp [initPageTables, h32, h33, identityPage]
  · intro j hj
    rw [h2, hpd0]
    rcases hj with rfl | rfl <;> rfl
  · intro j hj _ p hlo hhi
    rw [h2, hpd0] at hlo hhi
    unfold InPool frameBasePhys frameTotalCount
    rcases hj with rfl | rfl
    · simp only [userPage, if_true] at hlo hhi
      simp at hlo hhi
      omega
    · simp only [userPage, if_true] at hlo hhi
      omega
  · exact fun k j hk0 hpd => absurd (honly k hpd) hk0
  · exact fun k j hpt => absurd hpt (hnopt k j)
  · exact fun k j n hpt => absurd hpt (hnopt k j)

end Create

/-- A slot without a space may be cleared. -/
theorem Owned.clear (h : Owned kernel own s) (i : Nat) : Owned kernel own (s.setSpace i {}) :=
  h.remove (i := i) (S := fun _ => False) rfl (.refl _ s.frames) (fun _ _ _ _ _ _ h => h)

/-- A chunk is found or nothing changes. -/
theorem vmAllocUserChunk_cases (s : Vm) : vmAllocUserChunk s = (none, s) ∨
      ∃ c chunks, vmAllocUserChunk s = (some c, { s with userChunks := chunks }) ∧
      c < vmUserChunkCount := by
  unfold vmAllocUserChunk
  split
  · exact .inl rfl
  · next c hc => exact .inr ⟨c, _, rfl, List.mem_range.mp (List.mem_of_find?_eq_some hc)⟩

/-- A new space owns the tables that were built for it. -/
theorem Owned.addSpace (h : Owned kernel own s) {out q u : Nat} {chunks : Nat → Bool}
    (hq : q + 2 < 0x2000) (hu : 0x8000 ≤ u) (hbase : frameBasePhys ≤ q)
    (hcur : q + 3 = frameBasePhys + s.frames.cursor) (hfresh : ∀ p x, own p = some x → p < q)
    (hused : ∀ p, q ≤ p → p < q + 3 → FrameUsed s p) :
    Owned kernel (giveTables own q)
      ((vmBuildTables kernel { s with userChunks := chunks } q (q + 1) (q + 2) u).setSpace out
        { pml4Phys := q, userPhysBase := u, active := true }) := by
  generalize hs' : (vmBuildTables kernel { s with userChunks := chunks } q (q + 1) (q + 2) u).setSpace out
    { pml4Phys := q, userPhysBase := u, active := true } = s'
  have hmem : s'.mem = (vmBuildTables kernel { s with userChunks := chunks } q (q + 1) (q + 2) u).mem := by rw [← hs']; rfl
  have hframes : s'.frames = s.frames := by rw [← hs']; rfl
  have hnew : s'.spaces out = { pml4Phys := q, userPhysBase := u, active := true } := by
    rw [← hs']
    exact if_pos rfl
  have hold : ∀ j, j ≠ out → s'.spaces j = s.spaces j := by
    intro j hj
    rw [← hs']
    exact if_neg hj
  have hsame : ∀ p, p < q ∨ 0x2000 ≤ p → p < 0x8000 → s'.mem p = s.mem p := by
    intro p hp hp'
    rw [hmem, vmBuildTables_other (by omega) (by omega) (by omega) (by omega)]
  have hext : ∀ p x, own p = some x → giveTables own q p = some x := by
    intro p x hp
    have := hfresh p x hp
    unfold giveTables
    rw [if_neg (by omega), if_neg (by omega), if_neg (by omega)]
    exact hp
  have hcases : ∀ p x, giveTables own q p = some x → (own p = some x) ∨
      (x.1 = q ∧ q ≤ p ∧ p < q + 3) := by
    intro p x hp
    unfold giveTables at hp
    split at hp
    · next he => exact .inr ⟨congrArg Prod.fst (Option.some.inj hp).symm, by omega, by omega⟩
    · split at hp
      · next he => exact .inr ⟨congrArg Prod.fst (Option.some.inj hp).symm, by omega, by omega⟩
      · split at hp
        · next he => exact .inr ⟨congrArg Prod.fst (Option.some.inj hp).symm, by omega, by omega⟩
        · exact .inl hp
  -- the roots of the others have been handed out before
  have hroots : ∀ j, j ≠ out → (s'.spaces j).active = true → (s'.spaces j).pml4Phys < q := by
    intro j hj ha
    rw [hold j hj] at ha ⊢
    exact hfresh _ _ (h.shape j ha).root
  have hlow : ∀ p x, own p = some x → p < 0x8000 := fun p x hp => by have := hfresh p x hp; omega
  refine ⟨by rw [hframes]; exact h.cursor_le, by rw [hframes]; exact h.free, ?_, ?_, ?_, ?_, ?_, ?_, ?_⟩
  · intro p x hp
    rw [hframes]
    rcases hcases p x hp with hp | ⟨-, hlo, hhi⟩
    · exact h.below p x hp
    · exact ⟨by omega, by omega⟩
  · intro j ha p role hp
    unfold FrameUsed
    rw [hframes]
    rcases hcases p _ hp with hp | ⟨-, hlo, hhi⟩
    · by_cases hj : j = out
      · rw [hj, hnew] at hp
        have := hfresh _ _ (h.rooted p _ role hp)
        exact absurd this (Nat.lt_irrefl q)
      · rw [hold j hj] at ha hp
        exact h.used j ha p role hp
    · exact hused p hlo hhi
  · intro j k hj hk hjk
    by_cases hjo : j = out
    · by_cases hko : k = out
      · rw [hjo, hko]
      · have := hroots k hko hk
        rw [hjo, hnew] at hjk
        simp only [] at hjk
        omega
    · by_cases hko : k = out
      · have := hroots j hjo hj
        rw [hko, hnew] at hjk
        simp only [] at hjk
        omega
      · rw [hold j hjo] at hj hjk
        rw [hold k hko] at hk hjk
        exact h.distinct j k hj hk hjk
  · intro j ha
    by_cases hj : j = out
    · rw [hj, hnew, hmem]
      exact shape_vmBuildTables hq hu h.kernel
    · rw [hold j hj] at ha ⊢
      exact (h.shape j ha).frame (fun p role hp => hsame p (.inl (hfresh p _ hp)) (hlow p _ hp)) hext
  · intro j ha p hp
    by_cases hj : j = out
    · rw [hj, hnew] at hp
      exact nomatch hp
    · rw [hold j hj] at ha hp ⊢
      obtain ⟨role, hp⟩ := h.tracked j ha p hp
      exact ⟨role, hext p _ hp⟩
  · intro t
    have := kernel.inImage t
    rw [hsame _ (.inr this.1) (by omega)]
    exact h.kernel t
  · intro p r role hp
    rcases hcases p _ hp with hp | ⟨rfl, -, -⟩
    · exact hext _ _ (h.rooted p r role hp)
    · exact if_pos rfl

/-- `vm_create_address_space` keeps the owners. -/
theorem Owned.vmCreateAddressSpace (h : Owned kernel own s)
    (hroom : s.frames.cursor + 3 ≤ framesBelowKernel) (out : Nat) :
    ∃ own', Owned kernel own' (vmCreateAddressSpace kernel s out).2 := by
  have h0 := h.clear out
  have hroom0 : (s.setSpace out {}).frames.cursor + 3 ≤ framesBelowKernel := hroom
  unfold Model.vmCreateAddressSpace
  generalize s.setSpace out {} = s0 at h0 hroom0 ⊢
  have hb : framesBelowKernel = 4096 := rfl
  have hp : frameBasePhys = 4096 := rfl
  have h1 := h0.grab (by omega)
  have h2 := h1.grab (show s0.frames.cursor + 1 < framesBelowKernel by omega)
  have h3 := h2.grab (show s0.frames.cursor + 1 + 1 < framesBelowKernel by omega)
  simp only [h0.frameAlloc (by omega), h1.frameAlloc (show s0.frames.cursor + 1 < framesBelowKernel by omega),
    h2.frameAlloc (show s0.frames.cursor + 1 + 1 < framesBelowKernel by omega)]
  rcases vmAllocUserChunk_cases (Analysis.grab (Analysis.grab (Analysis.grab s0))) with hnone | ⟨c, chunks, hsome, hc⟩
  · rw [hnone]
    exact ⟨own, ((h3.frameFree h0.fresh_unowned).frameFree h1.fresh_unowned).frameFree h2.fresh_unowned⟩
  · rw [hsome]
    refine ⟨_, h3.addSpace (q := freshPage s0) ?_ ?_ ?_ ?_ ?_ ?_⟩
    · unfold freshPage
      omega
    · unfold vmUserPhysBase
      omega
    · exact Nat.le_add_right _ _
    · rfl
    · exact fun p x hp => (h0.below p x hp).2
    · intro p hlo hhi
      have hcases : p = freshPage s0 ∨ p = freshPage (Analysis.grab s0) ∨ p =
          freshPage (Analysis.grab (Analysis.grab s0)) := by
        have e1 : freshPage (Analysis.grab s0) = freshPage s0 + 1 := rfl
        have e2 : freshPage (Analysis.grab (Analysis.grab s0)) = freshPage s0 + 2 := rfl
        omega
      rcases hcases with rfl | rfl | rfl
      · exact grab_used (grab_used (grab_fresh s0))
      · exact grab_used (grab_fresh (Analysis.grab s0))
      · exact grab_fresh (Analysis.grab (Analysis.grab s0))

/-- At the start nothing is owned. -/
theorem owned_vmInit (kernel : KernelTables) (ram : PhysMem) :
    Owned kernel (fun _ => none) (vmInit kernel ram) := by
  refine ⟨Nat.zero_le _, fun _ _ => rfl, fun _ _ h => (nomatch h), fun _ h => (nomatch h),
    fun _ _ h => (nomatch h),
    fun _ h => (nomatch h), fun _ h => (nomatch h), ?_, fun _ _ _ h => (nomatch h)⟩
  intro t
  have hfind : (List.finRange 9).find? (fun t' => decide (kernel.table t' = kernel.table t)) =
      some t := by
    have heq : (fun t' => decide (kernel.table t' = kernel.table t)) =
        fun t' => decide (t' = t) := by
      funext t'
      exact decide_eq_decide.mpr kernel.injective.eq_iff
    rw [heq]
    clear heq
    revert t
    decide
  simp only [vmInit, hfind]

/-- Every call keeps the owners, as long as the pool has room. -/
theorem Owned.vmStep (h : Owned kernel own s) {a : VmAction} (ha : Orderly s a)
    (hs : vmStep kernel s a = some s') :
    ∃ own', Owned kernel own' s' := by
  obtain ⟨hunsplit, hroom⟩ := ha
  cases a with
  | create out =>
    obtain rfl := Option.some.inj hs
    exact h.vmCreateAddressSpace hroom out
  | destroy i =>
    obtain rfl := Option.some.inj hs
    exact ⟨own, h.vmDestroyAddressSpace i⟩
  | mapPage i vaddr page flags =>
    obtain rfl := Option.some.inj hs
    exact h.vmMapPage hroom hunsplit
  | pageFault current faultAddr errorCode =>
    obtain rfl := Option.some.inj hs
    exact h.vmHandlePageFault hroom
  | cowShare parent child =>
    obtain rfl := Option.some.inj hs
    exact h.vmCowShare hroom hunsplit
  | cowFault i faultAddr errorCode =>
    obtain rfl := Option.some.inj hs
    exact h.vmHandleCowFault hroom

/-- In every run whose calls meet the condition, a frame of the pool that an active address space
reaches is marked used exactly when it is not one of the kernel's own tables; so the property holds
of a state exactly when no address space is active in it. -/
theorem framesUsed_of_run {ram : PhysMem} {actions : List VmAction}
    (h : RunWhile (Model.vmStep kernel) Orderly (vmInit kernel ram) actions s) :
    (∀ i, (s.spaces i).active = true → ∀ p, Reaches s.mem (s.spaces i).pml4Phys p → InPool p →
      (FrameUsed s p ↔ ∀ t, p ≠ kernel.table t)) ∧ (FramesUsed s ↔
      ∀ i, (s.spaces i).active = false) := by
  obtain ⟨own, howned⟩ := h.invariant (I := fun s => ∃ own, Owned kernel own s)
    (fun s a s' ha ⟨own, hown⟩ hs => hown.vmStep ha hs) ⟨_, owned_vmInit kernel ram⟩
  refine ⟨?_, ?_⟩
  · intro i hi p hp hpool
    refine ⟨?_, howned.frameUsed hi hp hpool⟩
    rintro hused t rfl
    exact howned.kernel_free t hused
  · constructor
    · intro hall i
      cases hi : (s.spaces i).active with
      | false => rfl
      | true =>
        obtain ⟨h1, h2, h3⟩ := howned.kernel_unused hi
        exact absurd (hall i hi _ h1 h2) h3
    · intro hnone i hi
      rw [hnone i] at hi
      exact nomatch hi

def exampleKernel : KernelTables where
  table t := 0x2100 + t
  injective := by
    intro a b h
    exact Fin.ext (Nat.add_left_cancel h)
  inImage t := by
    have := t.isLt
    omega

def vmRun (kernel : KernelTables) (s : Vm) (actions : List VmAction) : Vm :=
  actions.foldl (fun s a => (Model.vmStep kernel s a).getD s) s

theorem vmStep_eq_some (kernel : KernelTables) (s : Vm) (a : VmAction) :
    Model.vmStep kernel s a = some (vmRun kernel s [a]) := by
  cases a <;> rfl

/-- A list of calls is a run. -/
theorem run_vmRun (kernel : KernelTables) (s : Vm) (actions : List VmAction) :
    Run (Model.vmStep kernel) s actions (vmRun kernel s actions) := by
  induction actions generalizing s with
  | nil => exact .nil s
  | cons a actions ih => exact .cons (vmStep_eq_some kernel s a) (ih _)

theorem runWhile_nil (kernel : KernelTables) (s : Vm) :
    RunWhile (Model.vmStep kernel) Orderly s [] (vmRun kernel s []) :=
  .nil s

/-- A first call that meets its condition, and the rest. -/
theorem runWhile_cons {a : VmAction} {actions : List VmAction} (ha : Orderly s a)
    (h : RunWhile (Model.vmStep kernel) Orderly (vmRun kernel s [a]) actions (vmRun kernel (vmRun kernel s [a]) actions)) :
    RunWhile (Model.vmStep kernel) Orderly s (a :: actions) (vmRun kernel s (a :: actions)) :=
  .cons ha (vmStep_eq_some kernel s a) h

def exampleBoot : Vm := vmInit exampleKernel fun _ _ => {}

def forkCalls : List VmAction := [.create 0, .create 1, .cowShare 0 1, .destroy 1]

/-- A fork whose child exits: the parent's page tables stay in the pool. -/
theorem framesUsed_fork : RunWhile (Model.vmStep exampleKernel) Orderly exampleBoot forkCalls
      (vmRun exampleKernel exampleBoot forkCalls) ∧
    ((vmRun exampleKernel exampleBoot forkCalls).spaces 0).active = true ∧
    ¬ FramesUsed (vmRun exampleKernel exampleBoot forkCalls) := by
  have hrun : RunWhile (Model.vmStep exampleKernel) Orderly exampleBoot forkCalls
      (vmRun exampleKernel exampleBoot forkCalls) := by
    refine runWhile_cons ⟨trivial, by decide⟩ (runWhile_cons ⟨trivial, by decide⟩
      (runWhile_cons ⟨?_, by decide⟩ (runWhile_cons ⟨trivial, by decide +kernel⟩ (runWhile_nil _ _))))
    intro _ pd0 hpd0
    have hpd0' : some pd0 = some 0x1002 := hpd0.symm.trans (by decide)
    obtain rfl := Option.some.inj hpd0'
    decide
  have hactive : ((vmRun exampleKernel exampleBoot forkCalls).spaces 0).active = true := by
    decide +kernel
  refine ⟨hrun, hactive, ?_⟩
  rw [(framesUsed_of_run hrun).2]
  intro hnone
  rw [hnone 0] at hactive
  exact nomatch hactive

/-- A parent that has written to its window, so that a fault has split it, forks again, and the new
child exits. -/
def reforkCalls : List VmAction :=
  [.create 0, .create 1, .cowShare 0 1, .cowFault 0 0x04000000 7, .create 2, .cowShare 0 2, .destroy 2]

/-- A second fork after a fault: a page of the parent is freed with the child. -/
theorem not_framesUsed_refork : ∃ s, Run (Model.vmStep exampleKernel) exampleBoot reforkCalls s ∧
    (s.spaces 0).active = true ∧ Reaches s.mem (s.spaces 0).pml4Phys 0x1006 ∧ InPool 0x1006 ∧
    (∀ t, 0x1006 ≠ exampleKernel.table t) ∧ ¬ FrameUsed s 0x1006 ∧ ¬ FramesUsed s := by
  refine ⟨_, run_vmRun exampleKernel exampleBoot reforkCalls, ?_⟩
  obtain ⟨hactive, hroot, hpdpt, hpd, hpt, hfree⟩ :
      ((vmRun exampleKernel exampleBoot reforkCalls).spaces 0).active = true ∧
      ((vmRun exampleKernel exampleBoot reforkCalls).spaces 0).pml4Phys = 0x1000 ∧
      (vmRun exampleKernel exampleBoot reforkCalls).mem 0x1000 0 = userPage 0x1001 ∧
      (vmRun exampleKernel exampleBoot reforkCalls).mem 0x1001 0 = userPage 0x1002 ∧
      (vmRun exampleKernel exampleBoot reforkCalls).mem 0x1002 32 = cowEntry (userPage 0x1006) ∧
      (vmRun exampleKernel exampleBoot reforkCalls).frames.used 6 = false := by decide +kernel
  have hpool : InPool 0x1006 := by
    unfold InPool
    decide
  generalize vmRun exampleKernel exampleBoot reforkCalls = s at hactive hroot hpdpt hpd hpt hfree ⊢
  have hreach : Reaches s.mem 0x1000 0x1006 := by
    have t2 : TableAt s.mem 0x1000 2 (s.mem 0x1000 0).frame := .next .root (by decide) (by rw [hpdpt]; rfl) (by simp)
    rw [hpdpt] at t2
    have t1 : TableAt s.mem 0x1000 1 (s.mem 0x1001 0).frame := .next t2 (by decide) (by rw [hpd]; rfl) (by simp)
    rw [hpd] at t1
    have t0 : TableAt s.mem 0x1000 0 (s.mem 0x1002 32).frame :=
      .next t1 (by decide) (by rw [hpt]; rfl) (by rw [hpt]; simp [cowEntry, userPage])
    rw [hpt] at t0
    exact .inl ⟨0, t0⟩
  have hunused : ¬ FrameUsed s 0x1006 := by
    unfold FrameUsed
    rw [show (0x1006 : Nat) - frameBasePhys = 6 from rfl, hfree]
    exact Bool.false_ne_true
  rw [hroot]
  refine ⟨hactive, hreach, hpool, by decide, hunused, ?_⟩
  intro hall
  exact hunused (hall 0 hactive _ (by rw [hroot]; exact hreach) hpool)

end Monios.Analysis
