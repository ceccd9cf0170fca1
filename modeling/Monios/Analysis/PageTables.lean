import Monios.Analysis.PageOwnership

/-!
# Changing page tables

As long as its cursor stays below the kernel, the allocator hands out frames that have never been
handed out before. So a new table, and the frames of a window that a fault splits, belong to the
address space that asked for them.
-/

set_option autoImplicit false

namespace Monios.Analysis

open Monios.Library Monios.Model

variable {kernel : KernelTables} {own : Owner} {s s' s'' : Vm} {i : Nat}

def grab (s : Vm) : Vm :=
  { s with
    frames := { used := fun j => if j = s.frames.cursor then true else s.frames.used j
                cursor := s.frames.cursor + 1 } }

def freshPage (s : Vm) : Nat := frameBasePhys + s.frames.cursor

/-- With a free frame at the cursor `frame_alloc` hands it out. -/
theorem frameAlloc_eq_grab (hfree : s.frames.used s.frames.cursor = false)
    (hlt : s.frames.cursor < framesBelowKernel) :
    s.frameAlloc = (some (freshPage s), grab s) := by
  have hfind : bitmapFindRunZero s.frames.used s.frames.cursor = some s.frames.cursor := by
    unfold bitmapFindRunZero
    have hlen : frameTotalCount - s.frames.cursor = (frameTotalCount - s.frames.cursor - 1) +
        1 := by
      unfold framesBelowKernel at hlt
      unfold frameTotalCount
      omega
    rw [hlen, List.range'_succ, List.find?_cons_of_pos (by simp [hfree])]
  unfold Vm.frameAlloc FramePool.alloc
  rw [hfind]
  have hwrap : ¬ (s.frames.cursor + 1 ≥ frameTotalCount) := by
    unfold framesBelowKernel at hlt
    unfold frameTotalCount
    omega
  simp only [Option.some_or, if_neg hwrap]
  rfl

theorem FramePool.free_cursor (fr : FramePool) (p : Nat) : (fr.free p).cursor = fr.cursor := by
  unfold FramePool.free
  split <;> rfl

theorem FramePool.free_used_false {fr : FramePool} {p n : Nat} (hn : fr.used n = false) :
    (fr.free p).used n = false := by
  unfold FramePool.free
  split
  · simp only [hn, ite_self]
  · exact hn

/-- Freeing a page leaves the other ones in use. -/
theorem FramePool.free_used_other {fr : FramePool} {p q : Nat} (hq : frameBasePhys ≤ q)
    (hne : q ≠ p) (hu : fr.used (q - frameBasePhys) = true) :
    (fr.free p).used (q - frameBasePhys) = true := by
  unfold FramePool.free
  split
  · next hc =>
      have hsub : q - frameBasePhys ≠ p - frameBasePhys := by omega
      simp only [if_neg hsub, hu]
  · exact hu

/-- The pages that are owned stay in use when the pool grows. -/
theorem Owned.grow (h : Owned kernel own s) (hcursor : s'.frames.cursor ≤ framesBelowKernel)
    (hfree : ∀ n, s'.frames.cursor ≤ n → s'.frames.used n = false)
    (hle : s.frames.cursor ≤ s'.frames.cursor) (hused : ∀ p x, own p = some x → FrameUsed s p →
      FrameUsed s' p) (hmem : ∀ p x, own p = some x → s'.mem p = s.mem p)
    (hkernel : ∀ t, s'.mem (kernel.table t) = s.mem (kernel.table t))
      (hspaces : s'.spaces = s.spaces) :
    Owned kernel own s' := by
  refine ⟨hcursor, hfree, ?_, ?_, ?_, ?_, ?_, ?_, h.rooted⟩
  · intro p x hp
    obtain ⟨h1, h2⟩ := h.below p x hp
    exact ⟨h1, by omega⟩
  · rw [hspaces]
    exact fun i hi p role hp => hused p _ hp (h.used i hi p role hp)
  · rw [hspaces]
    exact h.distinct
  · rw [hspaces]
    exact fun i hi => (h.shape i hi).frame (fun p role hp => hmem p _ hp) (fun _ _ h => h)
  · rw [hspaces]
    exact h.tracked
  · exact fun t => (hkernel t).trans (h.kernel t)

section Fresh

variable (h : Owned kernel own s)

include h in
/-- A fresh page has no owner. -/
theorem Owned.fresh_unowned : own (freshPage s) = none := by
  cases hq : own (freshPage s) with
  | none => rfl
  | some x =>
    have := (h.below _ x hq).2
    unfold freshPage at this
    omega

/-- A fresh page is no table of the kernel. -/
theorem freshPage_ne_kernel (kernel : KernelTables) (hlt : s.frames.cursor < framesBelowKernel)
    (t : Fin 9) : kernel.table t ≠ freshPage s := by
  have := kernel.inImage t
  unfold framesBelowKernel at hlt
  unfold freshPage frameBasePhys
  omega

include h in
/-- With room in the pool the next frame is handed out. -/
theorem Owned.frameAlloc (hlt : s.frames.cursor < framesBelowKernel) :
    s.frameAlloc = (some (freshPage s), grab s) :=
  frameAlloc_eq_grab (h.free _ (Nat.le_refl _)) hlt

/-- Behind the page that was taken all frames are free. -/
theorem grab_free (hfree : ∀ n, s.frames.cursor ≤ n → s.frames.used n = false) (n : Nat)
    (hn : (grab s).frames.cursor ≤ n) : (grab s).frames.used n = false := by
  have hn' : s.frames.cursor + 1 ≤ n := hn
  show (if n = s.frames.cursor then true else s.frames.used n) = false
  rw [if_neg (by omega)]
  exact hfree n (by omega)

/-- The page that was taken is in use. -/
theorem grab_fresh (s : Vm) : (grab s).frames.used (freshPage s - frameBasePhys) = true := by
  simp only [grab, freshPage, Nat.add_sub_cancel_left, if_true]

theorem grab_used {n : Nat} (hn : s.frames.used n = true) : (grab s).frames.used n = true := by
  show (if n = s.frames.cursor then true else s.frames.used n) = true
  split
  · rfl
  · exact hn

include h in
/-- Taking a fresh page gives nobody's page away. -/
theorem Owned.grab (hlt : s.frames.cursor < framesBelowKernel) : Owned kernel own (grab s) := by
  apply h.grow
  · exact hlt
  · exact grab_free h.free
  · exact Nat.le_succ _
  · exact fun p x _ hu => grab_used hu
  · exact fun _ _ _ => rfl
  · exact fun _ => rfl
  · rfl

include h in
/-- A page without an owner may be written to. -/
theorem Owned.fill {q : Nat} (hq : own q = none) (hk : ∀ t, kernel.table t ≠ q)
    (contents : Nat → PageEntry) :
    Owned kernel own (s.setPage q contents) := by
  apply h.grow
  · exact h.cursor_le
  · exact h.free
  · exact Nat.le_refl _
  · exact fun _ _ _ hu => hu
  · intro p x hp
    refine if_neg ?_
    rintro rfl
    rw [hq] at hp
    exact nomatch hp
  · exact fun t => if_neg (hk t)
  · rfl

include h in
/-- A page without an owner may be freed. -/
theorem Owned.frameFree {p : Nat} (hp : own p = none) : Owned kernel own (s.frameFree p) := by
  apply h.grow
  · show (s.frames.free p).cursor ≤ framesBelowKernel
    rw [FramePool.free_cursor]
    exact h.cursor_le
  · intro n hn
    change (s.frames.free p).cursor ≤ n at hn
    rw [FramePool.free_cursor] at hn
    exact FramePool.free_used_false (h.free n hn)
  · exact Nat.le_of_eq (FramePool.free_cursor s.frames p).symm
  · intro q x hq hu
    refine FramePool.free_used_other (h.below q x hq).1 ?_ hu
    rintro rfl
    rw [hp] at hq
    exact nomatch hq
  · exact fun _ _ _ => rfl
  · exact fun _ => rfl
  · rfl

end Fresh

structure Keeps (s s' : Vm) : Prop where
  active : ∀ j, (s'.spaces j).active = (s.spaces j).active
  root : ∀ j, (s'.spaces j).pml4Phys = (s.spaces j).pml4Phys
  window : ∀ j, (s.spaces j).active = true → ∀ m, m < 512 →
    s'.mem (pdOf s'.mem (s.spaces j).pml4Phys 0) m = s.mem (pdOf s.mem (s.spaces j).pml4Phys 0) m
  pts : ∀ j, (s.spaces j).active = true → ∀ k m, HasPt s.mem (s.spaces j).pml4Phys k m →
    HasPt s'.mem (s.spaces j).pml4Phys k m ∧ ptOf s'.mem (s.spaces j).pml4Phys k m = ptOf s.mem (s.spaces j).pml4Phys k m

theorem Keeps.refl (s : Vm) : Keeps s s :=
  ⟨fun _ => rfl, fun _ => rfl, fun _ _ _ _ => rfl, fun _ _ _ _ h => ⟨h, rfl⟩⟩

/-- What two steps keep, both together keep. -/
theorem Keeps.trans (h : Keeps s s') (h' : Keeps s' s'') : Keeps s s'' := by
  refine ⟨fun j => (h'.active j).trans (h.active j), fun j => (h'.root j).trans (h.root j), ?_, ?_⟩
  · intro j hj m hm
    have := h'.window j ((h.active j).trans hj) m hm
    rw [h.root] at this
    exact this.trans (h.window j hj m hm)
  · intro j hj k m hk
    obtain ⟨h1, h2⟩ := h.pts j hj k m hk
    have := h'.pts j ((h.active j).trans hj) k m (by rw [h.root]; exact h1)
    rw [h.root] at this
    exact ⟨this.1, this.2.trans h2⟩

/-- The owners stay when the roots of the spaces stay and the owned tables are kept. -/
theorem Owned.keeps (h : Owned kernel own s)
    (hactive : ∀ j, (s'.spaces j).active = (s.spaces j).active)
    (hroot : ∀ j, (s'.spaces j).pml4Phys = (s.spaces j).pml4Phys) (hmem : ∀ p r role m, own p =
      some (r, role) → (∀ k j, role ≠ .pt k j) → (s.mem p m).present = true →
      s'.mem p m = s.mem p m) : Keeps s s' := by
  have h1 : ∀ j, (s.spaces j).active = true → pdptOf s'.mem (s.spaces j).pml4Phys =
      pdptOf s.mem (s.spaces j).pml4Phys := by
    intro j hj
    have hs := h.shape j hj
    unfold pdptOf
    rw [hmem _ _ _ 0 hs.root (by simp) hs.pdpt_present]
  have h2 : ∀ j, (s.spaces j).active = true → ∀ k, HasPd s.mem (s.spaces j).pml4Phys k →
      HasPd s'.mem (s.spaces j).pml4Phys k ∧ pdOf s'.mem (s.spaces j).pml4Phys k = pdOf s.mem (s.spaces j).pml4Phys k := by
    intro j hj k hk
    have he := hmem _ _ _ k (h.shape j hj).pdpt_own (by simp) hk.present
    refine ⟨⟨hk.lt, hk.priv, ?_⟩, ?_⟩
    · rw [h1 j hj, he]
      exact hk.present
    · unfold pdOf
      rw [h1 j hj, he]
  refine ⟨hactive, hroot, ?_, ?_⟩
  · intro j hj m hm
    have hs := h.shape j hj
    have hpd : HasPd s.mem (s.spaces j).pml4Phys 0 := ⟨by decide, .inl rfl, hs.pd0_present⟩
    rw [(h2 j hj 0 hpd).2]
    apply hmem _ _ _ m (hs.pd_own 0 hpd) (by simp)
    by_cases h32 : m = 32
    · exact hs.window m (.inl h32)
    · by_cases h33 : m = 33
      · exact hs.window m (.inr h33)
      · exact (hs.identity m hm h32 h33).1
  · intro j hj k m hk
    obtain ⟨h3, h4⟩ := h2 j hj k hk.pd
    have he := hmem _ _ _ m ((h.shape j hj).pd_own k hk.pd) (by simp) hk.present
    refine ⟨⟨h3, hk.lt, ?_, ?_⟩, ?_⟩
    · rw [h4, he]; exact hk.present
    · rw [h4, he]; exact hk.small
    · unfold ptOf
      rw [h4, he]

def giveTo (own : Owner) (q r : Nat) (role : Role) : Owner :=
  fun p => if p = q then some (r, role) else own p

/-- The page that is given has its new owner. -/
theorem giveTo_self (own : Owner) (q r : Nat) (role : Role) :
    giveTo own q r role q = some (r, role) := if_pos rfl

/-- Giving a page takes none from its owner. -/
theorem giveTo_ext {q r : Nat} {role : Role} (hq : own q = none) (p : Nat) (x : Nat × Role)
    (hp : own p = some x) :
    giveTo own q r role p = some x := by
  unfold giveTo
  rw [if_neg]
  · exact hp
  · rintro rfl
    rw [hq] at hp
    exact nomatch hp

theorem vmTrackPageTable_mem (s : Vm) (i page : Nat) : (vmTrackPageTable s i page).mem = s.mem := by
  unfold vmTrackPageTable
  simp only []
  split <;> rfl

theorem vmTrackPageTable_frames (s : Vm) (i page : Nat) :
    (vmTrackPageTable s i page).frames = s.frames := by
  unfold vmTrackPageTable
  simp only []
  split <;> rfl

/-- Noting a table in a space changes neither its root nor whether it is active. -/
theorem vmTrackPageTable_spaces (s : Vm) (i page j : Nat) :
    ((vmTrackPageTable s i page).spaces j).active = (s.spaces j).active ∧
    ((vmTrackPageTable s i page).spaces j).pml4Phys = (s.spaces j).pml4Phys ∧
    ((vmTrackPageTable s i page).spaces j).demandPages = (s.spaces j).demandPages ∧
    ∀ p ∈ ((vmTrackPageTable s i page).spaces j).ptPages, p ∈ (s.spaces j).ptPages ∨
      (j = i ∧ p = page) := by
  unfold vmTrackPageTable
  simp only []
  split
  · exact ⟨rfl, rfl, rfl, fun p hp => .inl hp⟩
  · by_cases hj : j = i
    · subst hj
      simp [Vm.setSpace]
    · simp only [Vm.setSpace, if_neg hj, true_and]
      exact fun p hp => .inl hp

def newTable (s : Vm) (i table idx : Nat) : Vm :=
  vmTrackPageTable (((grab s).setPage (freshPage s) fun _ => {}).write table idx (userPage (freshPage s))) i (freshPage s)

/-- A new table is zeroed and entered into the table above it. -/
theorem newTable_mem (s : Vm) (i table idx p m : Nat) : (newTable s i table idx).mem p m =
    if p = table ∧ m = idx then userPage (freshPage s) else if p = freshPage s then {} else s.mem p m := by
  unfold newTable
  rw [vmTrackPageTable_mem]
  simp only [Vm.write, Vm.setPage, grab]
  split
  · rfl
  · split <;> rfl

/-- Pages with another owner are not changed. -/
theorem newTable_mem_of_ne {α : Type} {own : Nat → Option α} {s : Vm} {i table idx p : Nat}
    {x y : α} (hfresh : own (freshPage s) = none) (htable : own table = some x)
    (hp : own p = some y) (hne : y ≠ x) :
    (newTable s i table idx).mem p = s.mem p := by
  funext m
  rw [newTable_mem, if_neg, if_neg]
  · rintro rfl
    rw [hfresh] at hp
    exact nomatch hp
  · rintro ⟨rfl, -⟩
    rw [htable] at hp
    exact hne (Option.some.inj hp).symm

theorem newTable_frames (s : Vm) (i table idx : Nat) :
    (newTable s i table idx).frames = (grab s).frames := by
  unfold newTable
  rw [vmTrackPageTable_frames]
  rfl

/-- A new table changes no root. -/
theorem newTable_spaces (s : Vm) (i table idx j : Nat) :
    ((newTable s i table idx).spaces j).active = (s.spaces j).active ∧
    ((newTable s i table idx).spaces j).pml4Phys = (s.spaces j).pml4Phys ∧
    ((newTable s i table idx).spaces j).demandPages = (s.spaces j).demandPages ∧
    ∀ p ∈ ((newTable s i table idx).spaces j).ptPages, p ∈ (s.spaces j).ptPages ∨
      (j = i ∧ p = freshPage s) :=
  vmTrackPageTable_spaces _ i (freshPage s) j

/-- A fresh page may become a table of an active space. -/
theorem Owned.newTable (h : Owned kernel own s) (hi : (s.spaces i).active = true)
    (hlt : s.frames.cursor < framesBelowKernel) {table idx : Nat} {trole role : Role}
    (ht : own table = some ((s.spaces i).pml4Phys, trole))
    (habs : (s.mem table idx).present = false)
    (hshape : Shape kernel (giveTo own (freshPage s) (s.spaces i).pml4Phys role) (newTable s i table idx).mem
      (s.spaces i).pml4Phys) :
    Owned kernel (giveTo own (freshPage s) (s.spaces i).pml4Phys role) (newTable s i table idx) ∧
      Keeps s (newTable s i table idx) := by
  have hfresh := h.fresh_unowned
  have hframes := newTable_frames s i table idx
  have hspaces := newTable_spaces s i table idx
  refine ⟨h.change hi ?_ ?_ ?_ ?_ (giveTo_ext hfresh) ?_ ?_ ?_ (fun j => (hspaces j).1) (fun j => (hspaces j).2.1) ?_ hshape, ?_⟩
  · rw [hframes]; exact hlt
  · rw [hframes]; exact grab_free h.free
  · rw [hframes]; exact Nat.le_succ _
  · rw [hframes]; exact fun n hn => grab_used hn
  · intro p x hp
    unfold giveTo at hp
    split at hp
    · next hpq =>
        refine .inr ⟨⟨role, (Option.some.inj hp).symm⟩, ?_⟩
        rw [hpq]
        unfold FrameUsed
        rw [hframes]
        refine ⟨Nat.le_add_right _ _, Nat.lt_succ_self _, ?_⟩
        exact grab_fresh s
    · exact .inl hp
  · intro p r role' hp hr
    exact newTable_mem_of_ne hfresh ht hp fun heq => hr (congrArg Prod.fst heq)
  · intro t
    funext m
    rw [newTable_mem, if_neg (fun hc => h.ne_kernel ht t hc.1),
      if_neg (freshPage_ne_kernel kernel hlt t)]
  · intro j p hp
    rcases (hspaces j).2.2.2 p hp with hp | ⟨rfl, rfl⟩
    · exact .inl hp
    · exact .inr ⟨rfl, role, giveTo_self _ _ _ _⟩
  · refine h.keeps (fun j => (hspaces j).1) (fun j => (hspaces j).2.1) ?_
    intro p r role' m hp _ hpres
    rw [newTable_mem, if_neg, if_neg]
    · rintro rfl
      rw [hfresh] at hp
      exact nomatch hp
    · rintro ⟨rfl, rfl⟩
      rw [habs] at hpres
      exact nomatch hpres

/-- A table that is there is used. -/
theorem vmEnsureTable_present {table idx : Nat} (hp : (s.mem table idx).present = true) :
    vmEnsureTable s i table idx = (some (s.mem table idx), s) := by
  simp only [vmEnsureTable, hp, if_true]

/-- A table that is missing is made. -/
theorem Owned.vmEnsureTable_absent (h : Owned kernel own s)
    (hlt : s.frames.cursor < framesBelowKernel) {table idx : Nat}
    (hp : (s.mem table idx).present = false) :
    vmEnsureTable s i table idx =
      (some (userPage (freshPage s)), Analysis.newTable s i table idx) := by
  unfold vmEnsureTable
  simp only [hp, h.frameAlloc hlt]
  rfl

/-- A new page table below a page directory. -/
theorem Owned.newPt (h : Owned kernel own s) (hi : (s.spaces i).active = true)
    (hlt : s.frames.cursor < framesBelowKernel) {k j : Nat}
    (hpd : HasPd s.mem (s.spaces i).pml4Phys k) (hj : j < 512)
    (habs : (s.mem (pdOf s.mem (s.spaces i).pml4Phys k) j).present = false) :
    (∃ own', Owned kernel own' (Analysis.newTable s i (pdOf s.mem (s.spaces i).pml4Phys k) j)) ∧
    Keeps s (Analysis.newTable s i (pdOf s.mem (s.spaces i).pml4Phys k) j) ∧
    HasPt (Analysis.newTable s i (pdOf s.mem (s.spaces i).pml4Phys k) j).mem
      (s.spaces i).pml4Phys k j ∧
    ptOf (Analysis.newTable s i (pdOf s.mem (s.spaces i).pml4Phys k) j).mem
      (s.spaces i).pml4Phys k j = freshPage s := by
  have hshape := h.shape i hi
  have hown := hshape.pd_own k hpd
  have hfresh := h.fresh_unowned
  -- all entries of the first directory are there
  have hk0 : k ≠ 0 := by
    rintro rfl
    by_cases h32 : j = 32
    · exact absurd habs (by simp [hshape.window j (.inl h32)])
    · by_cases h33 : j = 33
      · exact absurd habs (by simp [hshape.window j (.inr h33)])
      · exact absurd habs (by simp [(hshape.identity j hj h32 h33).1])
  have hmem : ∀ p role, own p = some ((s.spaces i).pml4Phys, role) → role ≠ .pd k →
      (Analysis.newTable s i (pdOf s.mem (s.spaces i).pml4Phys k) j).mem p = s.mem p := by
    intro p role hp hrole
    exact newTable_mem_of_ne hfresh hown hp fun heq => hrole (congrArg Prod.snd heq)
  have hpde : ∀ m, (Analysis.newTable s i (pdOf s.mem (s.spaces i).pml4Phys k) j).mem (pdOf s.mem (s.spaces i).pml4Phys k) m =
      if m = j then userPage (freshPage s) else s.mem (pdOf s.mem (s.spaces i).pml4Phys k) m := by
    intro m
    have hne : pdOf s.mem (s.spaces i).pml4Phys k ≠ freshPage s := by
      intro he
      rw [he, hfresh] at hown
      exact nomatch hown
    simp only [newTable_mem, true_and, if_neg hne]
  have hnew := h.newTable hi hlt hown habs
    (hshape.frame_pde hpd hj hmem hpde (giveTo_ext hfresh) (fun h0 => absurd h0 hk0) (fun _ _ => rfl) (fun _ _ => by
      refine ⟨giveTo_self _ _ _ _, fun n _ hpres => ?_⟩
      have hne : freshPage s ≠ pdOf s.mem (s.spaces i).pml4Phys k := by
        intro he
        rw [← he, hfresh] at hown
        exact nomatch hown
      rw [newTable_mem, if_neg (fun hc => hne hc.1), if_pos (show (userPage (freshPage s)).frame = freshPage s from rfl)] at hpres
      exact nomatch hpres))
  have h1 : pdptOf (Analysis.newTable s i (pdOf s.mem (s.spaces i).pml4Phys k) j).mem (s.spaces i).pml4Phys =
      pdptOf s.mem (s.spaces i).pml4Phys := by
    unfold pdptOf
    rw [hmem _ _ hshape.root (by simp)]
  have h2 : pdOf (Analysis.newTable s i (pdOf s.mem (s.spaces i).pml4Phys k) j).mem (s.spaces i).pml4Phys k =
      pdOf s.mem (s.spaces i).pml4Phys k := by
    rw [pdOf, h1, hmem _ _ hshape.pdpt_own (by simp), ← pdOf]
  refine ⟨⟨_, hnew.1⟩, hnew.2, ⟨⟨hpd.lt, hpd.priv, ?_⟩, hj, ?_, ?_⟩, ?_⟩
  · rw [h1, hmem _ _ hshape.pdpt_own (by simp)]
    exact hpd.present
  · rw [h2, hpde, if_pos rfl]; rfl
  · rw [h2, hpde, if_pos rfl]; rfl
  · unfold ptOf
    rw [h2, hpde, if_pos rfl]
    rfl

/-- A new page directory below the third level. -/
theorem Owned.newPd (h : Owned kernel own s) (hi : (s.spaces i).active = true)
    (hlt : s.frames.cursor < framesBelowKernel) {k : Nat} (hk : k < 512)
    (habs : (s.mem (pdptOf s.mem (s.spaces i).pml4Phys) k).present = false) :
    (∃ own', Owned kernel own' (Analysis.newTable s i (pdptOf s.mem (s.spaces i).pml4Phys) k)) ∧
    Keeps s (Analysis.newTable s i (pdptOf s.mem (s.spaces i).pml4Phys) k) ∧
    HasPd (Analysis.newTable s i (pdptOf s.mem (s.spaces i).pml4Phys) k).mem
      (s.spaces i).pml4Phys k ∧
    pdOf (Analysis.newTable s i (pdptOf s.mem (s.spaces i).pml4Phys) k).mem
      (s.spaces i).pml4Phys k = freshPage s ∧
    ∀ j, ((Analysis.newTable s i (pdptOf s.mem (s.spaces i).pml4Phys) k).mem (freshPage s) j).present = false := by
  have hshape := h.shape i hi
  have hown := hshape.pdpt_own
  have hfresh := h.fresh_unowned
  have hk0 : k ≠ 0 := by
    rintro rfl
    exact absurd habs (by simp [hshape.pd0_present])
  have hkd : kernelDirectory k = none := by
    cases hkd : kernelDirectory k with
    | none => rfl
    | some t => exact absurd habs (by simp [(hshape.shared k t hk0 hkd).1])
  have hne : freshPage s ≠ pdptOf s.mem (s.spaces i).pml4Phys := by
    intro he
    rw [← he, hfresh] at hown
    exact nomatch hown
  have hmem : ∀ p role, own p = some ((s.spaces i).pml4Phys, role) → role ≠ .pdpt →
      (Analysis.newTable s i (pdptOf s.mem (s.spaces i).pml4Phys) k).mem p = s.mem p := by
    intro p role hp hrole
    exact newTable_mem_of_ne hfresh hown hp fun heq => hrole (congrArg Prod.snd heq)
  have hpdpte : ∀ m, (Analysis.newTable s i (pdptOf s.mem (s.spaces i).pml4Phys) k).mem (pdptOf s.mem (s.spaces i).pml4Phys) m =
      if m = k then userPage (freshPage s) else s.mem (pdptOf s.mem (s.spaces i).pml4Phys) m := by
    intro m
    simp only [newTable_mem, true_and, if_neg hne.symm]
  have hempty : ∀ j, ((Analysis.newTable s i (pdptOf s.mem (s.spaces i).pml4Phys) k).mem (freshPage s) j).present = false := by
    intro j
    rw [newTable_mem, if_neg (fun hc => hne hc.1), if_pos rfl]
  have hnew := h.newTable hi hlt hown habs
    (hshape.frame_pdpte hk hk0 hkd hmem hpdpte (giveTo_ext hfresh) (giveTo_self _ _ _ _) hempty)
  have h1 : pdptOf (Analysis.newTable s i (pdptOf s.mem (s.spaces i).pml4Phys) k).mem (s.spaces i).pml4Phys =
      pdptOf s.mem (s.spaces i).pml4Phys := by
    rw [pdptOf, hmem _ _ hshape.root (by simp), ← pdptOf]
  refine ⟨⟨_, hnew.1⟩, hnew.2, ⟨hk, .inr hkd, ?_⟩, ?_, hempty⟩
  · rw [h1, hpdpte, if_pos rfl]; rfl
  · rw [pdOf, h1, hpdpte, if_pos rfl]; rfl

theorem pml4Idx_lt (vaddr : Nat) : pml4Idx vaddr < 512 := Nat.mod_lt _ (by decide)

theorem pdptIdx_lt (vaddr : Nat) : pdptIdx vaddr < 512 := Nat.mod_lt _ (by decide)

theorem pdIdx_lt (vaddr : Nat) : pdIdx vaddr < 512 := Nat.mod_lt _ (by decide)

theorem ptIdx_lt (vaddr : Nat) : ptIdx vaddr < 512 := Nat.mod_lt _ (by decide)

structure PageWalk (kernel : KernelTables) (s : Vm) (i vaddr : Nat) (pt : Option Nat) (s' : Vm) : Prop where
  owned : ∃ own', Owned kernel own' s'
  keeps : Keeps s s'
  cursor : s'.frames.cursor ≤ s.frames.cursor + 2
  demand : ∀ j, (s'.spaces j).demandPages = (s.spaces j).demandPages
  table : ∀ p, pt = some p → pml4Idx vaddr = 0 ∧ HasPt s'.mem (s.spaces i).pml4Phys (pdptIdx vaddr) (pdIdx vaddr) ∧
    p = ptOf s'.mem (s.spaces i).pml4Phys (pdptIdx vaddr) (pdIdx vaddr)

/-- A walk that ends early changes nothing. -/
theorem Owned.walk_none (h : Owned kernel own s) (vaddr : Nat) : PageWalk kernel s i vaddr none s :=
  ⟨⟨own, h⟩, .refl s, Nat.le_add_right _ _, fun _ => rfl, fun _ h => nomatch h⟩

theorem newTable_cursor (s : Vm) (i table idx : Nat) :
    (Analysis.newTable s i table idx).frames.cursor = s.frames.cursor + 1 := by
  rw [newTable_frames]
  rfl

/-- The walk from the page directory on. -/
theorem Owned.walk_pd (h : Owned kernel own s) (hi : (s.spaces i).active = true)
    (hlt : s.frames.cursor < framesBelowKernel) {vaddr : Nat} (h4 : pml4Idx vaddr = 0)
    (hpd : HasPd s.mem (s.spaces i).pml4Phys (pdptIdx vaddr)) :
    ∃ pde s', vmEnsureTable s i (pdOf s.mem (s.spaces i).pml4Phys (pdptIdx vaddr)) (pdIdx vaddr) =
      (some pde, s') ∧
      s'.frames.cursor ≤ s.frames.cursor + 1 ∧
      PageWalk kernel s i vaddr (if pde.large then none else some pde.frame) s' := by
  cases hp : (s.mem (pdOf s.mem (s.spaces i).pml4Phys (pdptIdx vaddr)) (pdIdx vaddr)).present with
  | true =>
    refine ⟨_, _, vmEnsureTable_present hp, Nat.le_succ _, ⟨own, h⟩, .refl s, Nat.le_add_right _ _,
      fun _ => rfl, ?_⟩
    intro p hsome
    split at hsome
    · exact nomatch hsome
    · next hl => exact ⟨h4, ⟨hpd, pdIdx_lt vaddr, hp, by simpa using hl⟩, (Option.some.inj hsome).symm⟩
  | false =>
    obtain ⟨hown, hkeeps, hpt, heq⟩ := h.newPt hi hlt hpd (pdIdx_lt vaddr) hp
    refine ⟨_, _, h.vmEnsureTable_absent hlt hp, Nat.le_of_eq (newTable_cursor _ _ _ _), hown,
      hkeeps, ?_, ?_, ?_⟩
    · rw [newTable_cursor]
      exact Nat.le_succ _
    · exact fun j => (newTable_spaces _ _ _ _ j).2.2.1
    · intro p hsome
      exact ⟨h4, hpt, (Option.some.inj hsome).symm.trans heq.symm⟩

/-- `vm_walk_alloc` leads to a page table of the space, which it makes if need be. -/
theorem Owned.walkAlloc (h : Owned kernel own s) (hi : (s.spaces i).active = true)
    (hroom : s.frames.cursor + 2 ≤ framesBelowKernel) (vaddr : Nat) :
    PageWalk kernel s i vaddr (vmWalkAlloc s i vaddr).1 (vmWalkAlloc s i vaddr).2 := by
  have hshape := h.shape i hi
  by_cases h4 : pml4Idx vaddr = 0
  swap
  · have habs := hshape.pml4_only (pml4Idx vaddr) h4 (pml4Idx_lt vaddr)
    simp only [vmWalkAlloc, habs, Bool.not_false, if_true]
    exact h.walk_none vaddr
  unfold vmWalkAlloc
  simp only [h4, hshape.pdpt_present, Bool.not_true, if_neg Bool.false_ne_true]
  rw [show (s.mem (s.spaces i).pml4Phys 0).frame = pdptOf s.mem (s.spaces i).pml4Phys from rfl]
  cases hp : (s.mem (pdptOf s.mem (s.spaces i).pml4Phys) (pdptIdx vaddr)).present with
  | true =>
    rw [vmEnsureTable_present hp]
    rcases hshape.directory (pdptIdx_lt vaddr) hp with hpd | ⟨t, hk0, hkd, ht⟩
    · obtain ⟨pde, s', hens, -, hw⟩ := h.walk_pd hi (by omega) h4 hpd
      simp only []
      rw [show (s.mem (pdptOf s.mem (s.spaces i).pml4Phys) (pdptIdx vaddr)).frame =
        pdOf s.mem (s.spaces i).pml4Phys (pdptIdx vaddr) from rfl, hens]
      cases hl : pde.large <;> simp only [hl, if_true, Bool.false_eq_true, if_false] at hw ⊢ <;> exact hw
    · -- a directory of the kernel maps everything by large pages
      have hpde := initPageTables_shared kernel hk0 hkd (pdIdx vaddr)
      rw [← h.kernel, ← ht] at hpde
      simp only []
      rw [show (s.mem (pdptOf s.mem (s.spaces i).pml4Phys) (pdptIdx vaddr)).frame =
        pdOf s.mem (s.spaces i).pml4Phys (pdptIdx vaddr) from rfl, vmEnsureTable_present hpde.1]
      simp only [hpde.2.1, if_true]
      exact h.walk_none vaddr
  | false =>
    obtain ⟨⟨own', h'⟩, hkeeps, hpd, heq, -⟩ := h.newPd hi (by omega) (pdptIdx_lt vaddr) hp
    rw [h.vmEnsureTable_absent (by omega) hp]
    generalize hs1 : Analysis.newTable s i (pdptOf s.mem (s.spaces i).pml4Phys) (pdptIdx vaddr) = s1 at h' hkeeps hpd heq
    have hcur : s1.frames.cursor = s.frames.cursor + 1 := by rw [← hs1, newTable_cursor]
    have hdem : ∀ j, (s1.spaces j).demandPages = (s.spaces j).demandPages := by
      intro j
      rw [← hs1]
      exact (newTable_spaces _ _ _ _ j).2.2.1
    rw [← hkeeps.root i] at hpd heq
    obtain ⟨pde, s', hens, hcur', hw⟩ := h'.walk_pd ((hkeeps.active i).trans hi) (by omega) h4 hpd
    rw [heq] at hens
    simp only []
    rw [show (userPage (freshPage s)).frame = freshPage s from rfl, hens]
    have hfinal : PageWalk kernel s i vaddr (if pde.large then none else some pde.frame) s' := by
      refine ⟨hw.owned, hkeeps.trans hw.keeps, by omega, fun j => (hw.demand j).trans (hdem j), ?_⟩
      intro p hp
      have := hw.table p hp
      rwa [hkeeps.root] at this
    cases hl : pde.large <;> simp only [hl, if_true, Bool.false_eq_true, if_false] at hfinal ⊢ <;> exact hfinal

/-- An entry of a page table of the space may be written. -/
theorem Owned.write_pte (h : Owned kernel own s) (hi : (s.spaces i).active = true) {k j n : Nat}
    (hpt : HasPt s.mem (s.spaces i).pml4Phys k j) {e : PageEntry} (he : n < 512 → e.present = true →
      ¬ InPool e.frame ∨ (k = 0 ∧ own e.frame = some ((s.spaces i).pml4Phys, .copy))) :
    Owned kernel own (s.write (ptOf s.mem (s.spaces i).pml4Phys k j) n e) ∧
      Keeps s (s.write (ptOf s.mem (s.spaces i).pml4Phys k j) n e) := by
  have hown := (h.shape i hi).pt_own k j hpt
  refine ⟨h.write hi hown ((h.shape i hi).write_pte hpt he), ?_⟩
  refine h.keeps (fun _ => rfl) (fun _ => rfl) ?_
  intro p r role m hp hrole _
  refine if_neg ?_
  rintro ⟨rfl, -⟩
  rw [hown] at hp
  exact hrole k j (congrArg Prod.snd (Option.some.inj hp)).symm

/-- Recording a demand page changes neither a root nor whether a space is active. -/
theorem vmRecordDemand_spaces (s : Vm) (i vaddr j : Nat) :
    ((vmRecordDemand s i vaddr).spaces j).active = (s.spaces j).active ∧
    ((vmRecordDemand s i vaddr).spaces j).pml4Phys = (s.spaces j).pml4Phys ∧
    ((vmRecordDemand s i vaddr).spaces j).ptPages = (s.spaces j).ptPages ∧
    (j ≠ i → ((vmRecordDemand s i vaddr).spaces j).demandPages = (s.spaces j).demandPages) := by
  unfold vmRecordDemand
  simp only []
  split
  · by_cases hj : j = i
    · subst hj
      simp [Vm.setSpace]
    · simp [Vm.setSpace, hj]
  · exact ⟨rfl, rfl, rfl, fun _ => rfl⟩

theorem vmRecordDemand_mem (s : Vm) (i vaddr : Nat) : (vmRecordDemand s i vaddr).mem = s.mem := by
  unfold vmRecordDemand
  simp only []
  split <;> rfl

theorem vmRecordDemand_frames (s : Vm) (i vaddr : Nat) :
    (vmRecordDemand s i vaddr).frames = s.frames := by
  unfold vmRecordDemand
  simp only []
  split <;> rfl

/-- Recording a demand page changes no owner. -/
theorem Owned.vmRecordDemand (h : Owned kernel own s) (i vaddr : Nat) :
    Owned kernel own (vmRecordDemand s i vaddr) :=
  h.bookkeeping (vmRecordDemand_frames s i vaddr) (vmRecordDemand_mem s i vaddr)
    (fun j => (vmRecordDemand_spaces s i vaddr j).1) (fun j => (vmRecordDemand_spaces s i vaddr j).2.1)
    (fun j => (vmRecordDemand_spaces s i vaddr j).2.2.1)

theorem keeps_vmRecordDemand (s : Vm) (i vaddr : Nat) :
    Keeps s (Model.vmRecordDemand s i vaddr) := by
  refine ⟨fun j => (vmRecordDemand_spaces s i vaddr j).1, fun j => (vmRecordDemand_spaces s i vaddr j).2.1, ?_, ?_⟩
  · intro j _ m _
    rw [vmRecordDemand_mem]
  · intro j _ k m hk
    rw [vmRecordDemand_mem]
    exact ⟨hk, rfl⟩

/-- Outside the window of the user the walk makes nothing. -/
theorem vmWalkAlloc_closed {vaddr : Nat} (hc : Closed s i vaddr) :
    vmWalkAlloc s i vaddr = (none, s) := by
  unfold vmWalkAlloc
  rcases hc with h4 | ⟨pde, hpde, hlarge⟩
  · simp only [h4, Bool.not_false, if_true]
  · unfold vmDirectoryEntry at hpde
    simp only [] at hpde ⊢
    split at hpde
    · exact nomatch hpde
    · next h4 =>
        split at hpde
        · exact nomatch hpde
        · next h3 =>
            split at hpde
            · exact nomatch hpde
            · next h2 =>
                simp only [Bool.not_eq_true', Bool.not_eq_false] at h4 h3 h2
                obtain rfl := Option.some.inj hpde
                simp only [h4, Bool.not_true, if_neg Bool.false_ne_true, vmEnsureTable_present h3,
                  vmEnsureTable_present h2, hlarge, if_true]

/-- `vm_map_page` keeps the owners when two frames are left. -/
theorem Owned.vmMapPage (h : Owned kernel own s) {vaddr page : Nat} {flags : PageFlags}
    (hroom : s.frames.cursor + 2 ≤ framesBelowKernel)
    (hc : (s.spaces i).active = true → flags.present = true → InPool page → Closed s i vaddr) :
    ∃ own', Owned kernel own' (vmMapPage s i vaddr page flags).2 := by
  unfold Model.vmMapPage
  split
  · exact ⟨own, h⟩
  · next hi =>
      simp only [Bool.not_eq_true', Bool.not_eq_false] at hi
      by_cases hpool : flags.present = true ∧ InPool page
      · rw [vmWalkAlloc_closed (hc hi hpool.1 hpool.2)]
        exact ⟨own, h⟩
      · have hw := h.walkAlloc hi hroom vaddr
        generalize vmWalkAlloc s i vaddr = res at hw
        obtain ⟨_ | pt, s1⟩ := res
        · exact hw.owned
        · change PageWalk kernel s i vaddr (some pt) s1 at hw
          obtain ⟨own', h'⟩ := hw.owned
          obtain ⟨-, hpt, rfl⟩ := hw.table pt rfl
          rw [← hw.keeps.root i] at hpt ⊢
          have hwrite := (h'.write_pte ((hw.keeps.active i).trans hi) hpt (n := ptIdx vaddr)
            (e := { flags with frame := page }) (fun _ hp => .inl (fun hin => hpool ⟨hp, hin⟩))).1
          exact ⟨own', hwrite.vmRecordDemand i _⟩

/-- The demand window is one large page until it is split. -/
theorem Owned.demand_large (h : Owned kernel own s) (hi : (s.spaces i).active = true) {vaddr : Nat}
    (hlo : vmUserLimit ≤ vaddr) (hhi : vaddr < vmDemandEnd) :
    ∃ pde, vmDirectoryEntry s.mem (s.spaces i).pml4Phys vaddr = some pde ∧ pde.large = true := by
  have hshape := h.shape i hi
  have h4 : pml4Idx vaddr = 0 := by
    unfold pml4Idx
    unfold vmDemandEnd at hhi
    omega
  have hk : pdptIdx vaddr < 4 := by
    unfold pdptIdx
    unfold vmDemandEnd at hhi
    omega
  -- both levels are there, and the entry of the second is large
  have hdir : ∀ {pd : Nat}, pdOf s.mem (s.spaces i).pml4Phys (pdptIdx vaddr) = pd →
      (s.mem (pdptOf s.mem (s.spaces i).pml4Phys) (pdptIdx vaddr)).present = true →
      (s.mem pd (pdIdx vaddr)).present = true → (s.mem pd (pdIdx vaddr)).large = true →
      ∃ pde, vmDirectoryEntry s.mem (s.spaces i).pml4Phys vaddr = some pde ∧ pde.large = true := by
    rintro pd rfl hp hpde hl
    refine ⟨_, ?_, hl⟩
    unfold vmDirectoryEntry
    simp only [h4, hshape.pdpt_present, Bool.not_true, if_neg Bool.false_ne_true]
    rw [show (s.mem (s.spaces i).pml4Phys 0).frame = pdptOf s.mem (s.spaces i).pml4Phys from rfl,
      hp]
    simp only [Bool.not_true, if_neg Bool.false_ne_true]
    rw [show (s.mem (pdptOf s.mem (s.spaces i).pml4Phys) (pdptIdx vaddr)).frame =
      pdOf s.mem (s.spaces i).pml4Phys (pdptIdx vaddr) from rfl, hpde]
    simp only [Bool.not_true, if_neg Bool.false_ne_true]
  by_cases hk0 : pdptIdx vaddr = 0
  · have hj : pdIdx vaddr ≠ 32 ∧ pdIdx vaddr ≠ 33 := by
      unfold pdIdx
      unfold pdptIdx at hk0
      unfold vmUserLimit at hlo
      unfold vmDemandEnd at hhi
      omega
    have hid := hshape.identity (pdIdx vaddr) (pdIdx_lt vaddr) hj.1 hj.2
    exact hdir (by rw [hk0]) (by rw [hk0]; exact hshape.pd0_present) hid.1 hid.2.1
  · obtain ⟨t, ht⟩ : ∃ t, kernelDirectory (pdptIdx vaddr) = some t := by
      have hcases : pdptIdx vaddr = 1 ∨ pdptIdx vaddr = 2 ∨ pdptIdx vaddr = 3 := by omega
      rcases hcases with hc | hc | hc <;> rw [hc] <;> exact ⟨_, rfl⟩
    have hsh := hshape.shared (pdptIdx vaddr) t hk0 ht
    have hlarge := initPageTables_shared kernel hk0 ht (pdIdx vaddr)
    rw [← h.kernel] at hlarge
    exact hdir hsh.2 hsh.1 hlarge.1 hlarge.2.1

/-- What the copying loop leaves: the new page table names the frames that were handed out, one
after the other. -/
structure SplitDone (newPt n j : Nat) (s s' : Vm) : Prop where
  cursor : s'.frames.cursor = s.frames.cursor + n
  used : ∀ m, s'.frames.used m = true ↔ s.frames.used m = true ∨ (s.frames.cursor ≤ m ∧ m < s.frames.cursor + n)
  other : ∀ p, p ≠ newPt → p < freshPage s ∨ freshPage s + n ≤ p → s'.mem p = s.mem p
  before : ∀ m, m < j → s'.mem newPt m = s.mem newPt m
  copied : ∀ m, m < n → s'.mem newPt (j + m) = userPage (freshPage s + m)
  spaces : s'.spaces = s.spaces

/-- The loop that splits a large page fills a new table with its small pages. -/
theorem vmSplitLoop_spec (newPt src n j : Nat) (s : Vm)
    (hfree : ∀ m, s.frames.cursor ≤ m → s.frames.used m = false)
    (hroom : s.frames.cursor + n ≤ framesBelowKernel) (hpt : newPt < freshPage s) :
    ∃ s', vmSplitLoop newPt src n j s = (true, s') ∧ SplitDone newPt n j s s' := by
  induction n generalizing j s with
  | zero =>
    refine ⟨s, rfl, rfl, fun m => ?_, fun _ _ _ => rfl, fun _ _ => rfl,
      fun m hm => absurd hm (Nat.not_lt_zero m), rfl⟩
    constructor
    · exact .inl
    · rintro (h | h)
      · exact h
      · omega
  | succ n ih =>
    have halloc := frameAlloc_eq_grab (hfree _ (Nat.le_refl _)) (by omega)
    unfold vmSplitLoop
    rw [halloc]
    simp only []
    generalize hs1 : ((grab s).setPage (freshPage s) ((grab s).mem (src + j))).write newPt j (userPage (freshPage s)) = s1
    have hframes : s1.frames = (grab s).frames := by rw [← hs1]; rfl
    have hcur : s1.frames.cursor = s.frames.cursor + 1 := by rw [hframes]; rfl
    have hfresh1 : freshPage s1 = freshPage s + 1 := by unfold freshPage; rw [hcur]; rfl
    have hmem1 : ∀ p m, s1.mem p m = if p = newPt ∧ m = j then userPage (freshPage s) else
        if p = freshPage s then s.mem (src + j) m else s.mem p m := by
      intro p m
      rw [← hs1]
      simp only [Vm.write, Vm.setPage, grab]
      split
      · rfl
      · split <;> rfl
    obtain ⟨s', hloop, hdone⟩ := ih (j + 1) s1 (by rw [hframes]; exact grab_free hfree) (by omega) (by omega)
    refine ⟨s', hloop, ?_, ?_, ?_, ?_, ?_, ?_⟩
    · rw [hdone.cursor, hcur]
      omega
    · intro m
      rw [hdone.used, hcur, hframes]
      show (if m = s.frames.cursor then true else s.frames.used m) = true ∨ _ ↔ _
      by_cases hm : m = s.frames.cursor
      · simp only [hm, if_true, true_or, true_iff]
        exact .inr ⟨Nat.le_refl _, by omega⟩
      · rw [if_neg hm]
        constructor
        · rintro (h | h)
          · exact .inl h
          · exact .inr ⟨by omega, by omega⟩
        · rintro (h | h)
          · exact .inl h
          · exact .inr ⟨by omega, by omega⟩
    · intro p hp hrange
      rw [hdone.other p hp (by omega)]
      funext m
      rw [hmem1, if_neg (fun hc => hp hc.1), if_neg (by omega)]
    · intro m hm
      rw [hdone.before m (by omega), hmem1, if_neg (by omega), if_neg (by omega)]
    · intro m hm
      cases m with
      | zero =>
        rw [Nat.add_zero, hdone.before j (by omega), hmem1, if_pos ⟨rfl, rfl⟩]
        rfl
      | succ m =>
        have := hdone.copied m (by omega)
        rw [hfresh1] at this
        rw [show j + (m + 1) = j + 1 + m by omega, this]
        congr 1
        omega
    · rw [hdone.spaces, ← hs1]
      rfl

def giveSplit (own : Owner) (q r j : Nat) : Owner := fun p =>
  if p = q then some (r, .pt 0 j) else if q < p ∧ p < q + 513 then some (r, .copy) else own p

/-- Splitting the window takes one table and as many frames as the large page has pages. -/
theorem Owned.vmSplitWindow (h : Owned kernel own s) (hi : (s.spaces i).active = true)
    (hroom : s.frames.cursor + 513 ≤ framesBelowKernel) {j : Nat} (hj : j = 32 ∨ j = 33) :
    ∃ own', Owned kernel own' (vmSplitWindow s i (pdOf s.mem (s.spaces i).pml4Phys 0) j).2 := by
  have hshape := h.shape i hi
  have hpd : HasPd s.mem (s.spaces i).pml4Phys 0 := ⟨by decide, .inl rfl, hshape.pd0_present⟩
  have hown := hshape.pd_own 0 hpd
  unfold Model.vmSplitWindow
  simp only []
  split
  · exact ⟨own, h⟩
  · rw [h.frameAlloc (by omega)]
    simp only []
    -- after the new page table has been cleared
    generalize hs1 : (Analysis.grab s).setPage (freshPage s) (fun _ => {}) = s1
    have h1 : Owned kernel own s1 := hs1 ▸ (h.grab (by omega)).fill h.fresh_unowned (freshPage_ne_kernel kernel (by omega)) _
    have hcur1 : s1.frames.cursor = s.frames.cursor + 1 := by rw [← hs1]; rfl
    have hfresh1 : freshPage s1 = freshPage s + 1 := by unfold freshPage; rw [hcur1]; rfl
    have hspaces1 : s1.spaces = s.spaces := by rw [← hs1]; rfl
    have hmem1 : ∀ p, p ≠ freshPage s → s1.mem p = s.mem p := by
      intro p hp
      rw [← hs1]
      exact if_neg hp
    obtain ⟨s2, hloop, hdone⟩ := vmSplitLoop_spec (freshPage s)
      ((s.mem (pdOf s.mem (s.spaces i).pml4Phys 0) j).frame / 512 * 512) 512 0 s1 h1.free (by omega) (by omega)
    rw [hloop]
    simp only []
    -- frames that are owned already are not touched
    have hlt : ∀ p x, own p = some x → p < freshPage s := fun p x hp => (h.below p x hp).2
    have hmem2 : ∀ p, p < freshPage s ∨ freshPage s + 513 ≤ p → s2.mem p = s.mem p := by
      intro p hp
      rw [hdone.other p (by omega) (by omega), hmem1 p (by omega)]
    generalize hs3 : s2.write (pdOf s.mem (s.spaces i).pml4Phys 0) j (userPage (freshPage s)) = s3
    have hmem3 : ∀ p m, s3.mem p m =
        if p = pdOf s.mem (s.spaces i).pml4Phys 0 ∧ m = j then userPage (freshPage s) else s2.mem p m := by
      intro p m
      rw [← hs3]
      rfl
    have hframes3 : s3.frames = s2.frames := by rw [← hs3]; rfl
    have hspaces3 : s3.spaces = s.spaces := by
      rw [← hs3]
      exact hdone.spaces.trans hspaces1
    have hpd0 := hlt _ _ hown
    have hspaces := vmTrackPageTable_spaces s3 i (freshPage s)
    have hext : ∀ p x, own p = some x → giveSplit own (freshPage s) (s.spaces i).pml4Phys j p =
        some x := by
      intro p x hp
      have := hlt p x hp
      unfold giveSplit
      rw [if_neg (by omega), if_neg (by omega)]
      exact hp
    refine ⟨giveSplit own (freshPage s) (s.spaces i).pml4Phys j,
      h.change hi ?_ ?_ ?_ ?_ hext ?_ ?_ ?_ ?_ ?_ ?_ ?_⟩
    · rw [vmTrackPageTable_frames, hframes3, hdone.cursor]
      omega
    · rw [vmTrackPageTable_frames, hframes3, hdone.cursor]
      intro n hn
      have h2 := hdone.used n
      rw [h1.free n (by omega)] at h2
      cases hu : s2.frames.used n with
      | false => rfl
      | true =>
        rcases h2.mp hu with h2 | h2
        · exact nomatch h2
        · omega
    · rw [vmTrackPageTable_frames, hframes3, hdone.cursor]
      omega
    · rw [vmTrackPageTable_frames, hframes3]
      intro n hn
      refine (hdone.used n).mpr (.inl ?_)
      rw [← hs1]
      exact grab_used hn
    · intro p x hp
      unfold FrameUsed
      rw [vmTrackPageTable_frames, hframes3, hdone.cursor, hdone.used, hcur1]
      unfold giveSplit at hp
      have hbase : freshPage s = frameBasePhys + s.frames.cursor := rfl
      split at hp
      · next hpq =>
          refine .inr ⟨⟨_, (Option.some.inj hp).symm⟩, by omega, by omega, .inl ?_⟩
          rw [hpq, ← hs1]
          exact grab_fresh s
      · split at hp
        · next hc => exact .inr ⟨⟨_, (Option.some.inj hp).symm⟩, by omega, by omega, .inr ⟨by omega, by omega⟩⟩
        · exact .inl hp
    · intro p r role hp hr
      have := hlt p _ hp
      funext m
      rw [vmTrackPageTable_mem, hmem3, if_neg, hmem2 p (.inl this)]
      rintro ⟨rfl, -⟩
      rw [hown] at hp
      exact hr (congrArg Prod.fst (Option.some.inj hp)).symm
    · intro t
      have himage := kernel.inImage t
      funext m
      rw [vmTrackPageTable_mem, hmem3, if_neg (fun hc => h.ne_kernel hown t hc.1), hmem2]
      unfold freshPage frameBasePhys
      unfold framesBelowKernel at hroom
      omega
    · intro m
      rw [(hspaces m).1, hspaces3]
    · intro m
      rw [(hspaces m).2.1, hspaces3]
    · intro m p hp
      rcases (hspaces m).2.2.2 p hp with hp | ⟨rfl, rfl⟩
      · rw [hspaces3] at hp
        exact .inl hp
      · exact .inr ⟨rfl, _, if_pos rfl⟩
    · rw [vmTrackPageTable_mem]
      refine hshape.frame_pde (e := userPage (freshPage s)) hpd (by omega) ?_ ?_ hext
        (fun _ => ⟨hj, rfl, fun hl => nomatch hl⟩) (fun hk => absurd rfl hk) ?_
      · intro p role hp hrole
        funext m
        rw [hmem3, if_neg, hmem2 p (.inl (hlt p _ hp))]
        rintro ⟨rfl, -⟩
        rw [hown] at hp
        exact hrole (congrArg Prod.snd (Option.some.inj hp)).symm
      · intro m
        rw [hmem3, hmem2 _ (.inl hpd0)]
        simp only [true_and]
      · intro _ _
        refine ⟨if_pos rfl, fun n hn _ => .inr ⟨rfl, ?_⟩⟩
        have hpage : s3.mem (freshPage s) n = userPage (freshPage s + 1 + n) := by
          have := hdone.copied n hn
          rw [Nat.zero_add, hfresh1] at this
          rw [hmem3, if_neg (by omega), this]
        rw [show (userPage (freshPage s)).frame = freshPage s from rfl, hpage]
        show giveSplit own (freshPage s) (s.spaces i).pml4Phys j (freshPage s + 1 + n) = _
        unfold giveSplit
        rw [if_neg (by omega), if_pos ⟨by omega, by omega⟩]

end Monios.Analysis
