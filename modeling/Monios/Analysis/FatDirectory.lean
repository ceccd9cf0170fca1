import Monios.Analysis.FatTable

/-!
# Looking through a FAT32 directory

The cursor of `fat32_cursor_next` reads the sectors of a directory one by one. It changes nothing
but the FAT cache, and what it finds stands in the clusters of the volume (`cursorNext_looks`).
-/

set_option autoImplicit false

namespace Monios.Analysis

open Monios.Library Monios.Model

variable {b s s' t : Fat32} {A : Nat → Prop} {D : Nat → Nat → Prop}

def EntryPlace (b : Fat32) (lba off : Nat) : Prop := InData b lba ∧ off + 32 ≤ 512

structure ItemPlaces (b : Fat32) (item : Fat32DirItem) : Prop where
  entry : EntryPlace b item.sectorLba item.byteOffset
  lfn : ∀ slot ∈ item.lfn, EntryPlace b slot.lba slot.off

structure CursorPlaces (b : Fat32) (c : Fat32DirCursor) : Prop where
  cluster : c.sector.isSome = true → fat32InRange b c.sectorCluster = true
  lfn : ∀ slot ∈ c.lfn, EntryPlace b slot.lba slot.off

theorem cursorLba_inData (hb : FatLayout b) (h : AtWork b s) {c : Fat32DirCursor}
    (hc : fat32InRange b c.sectorCluster = true) : InData b (fat32CursorLba s c) := by
  unfold fat32CursorLba
  rw [h.clusterToLba, h.bpb]
  exact (hb.clusterSector_eq hc (Nat.mod_lt _ hb.spc)).2

theorem cursorNext_looks (hb : FatLayout b) (h : AtWork b s) (fuel : Nat) (c : Fat32DirCursor)
    (hc : CursorPlaces b c) :
    Ensures (fat32CursorNext fuel c) s fun r t => Looks b s t ∧ CursorPlaces b r.2 ∧
      ∀ item, r.1 = some item → ItemPlaces b item := by
  induction fuel generalizing s c with
  | zero => exact .none
  | succ fuel ih =>
    obtain ⟨dir, index, loaded, cluster, i, done, lfn⟩ := c
    unfold fat32CursorNext
    refine .ite (fun _ => .pure ⟨.refl h, ⟨hc.cluster, hc.lfn⟩, by simp⟩) fun _ => ?_
    cases loaded with
    | none =>
      refine .bind (readDirSector_looks hb h _ _) fun r s₁ h₁ => ?_
      cases r with
      | none => exact .pure ⟨h₁.1, ⟨(fun hnone => by cases hnone), hc.lfn⟩, by simp⟩
      | some p =>
        obtain ⟨sector, cluster'⟩ := p
        refine (ih h₁.1.1 ⟨dir, index, some sector, cluster', 0, done, lfn⟩
          ⟨fun _ => h₁.2 sector cluster' rfl, hc.lfn⟩).mono fun r t ht => ?_
        exact ⟨h₁.1.trans ht.1, ht.2⟩
    | some sector =>
      have hcluster : fat32InRange b cluster = true := hc.cluster rfl
      refine .ite (fun hi => .get_bind ?_) fun _ => ih h _ ⟨(fun hnone => by cases hnone), hc.lfn⟩
      have hplace : EntryPlace b (fat32CursorLba s ⟨dir, index, some sector, cluster, i, done, lfn⟩) (32 * i) :=
        ⟨cursorLba_inData hb h hcluster, by dsimp only at hi; omega⟩
      unfold fat32CursorEntry
      dsimp only
      by_cases hstop : (dirEntryAt sector (32 * i)).name0 = 0x00
      · rw [if_pos hstop]
        exact .pure ⟨.refl h, ⟨fun _ => hcluster, hc.lfn⟩, by simp⟩
      rw [if_neg hstop]
      by_cases hdeleted : (dirEntryAt sector (32 * i)).name0 = 0xE5
      · rw [if_pos hdeleted]
        exact ih h _ ⟨fun _ => hcluster, by simp⟩
      rw [if_neg hdeleted]
      by_cases hlong : (dirEntryAt sector (32 * i)).isLfn = true
      · rw [if_pos hlong]
        refine ih h _ ⟨fun _ => hcluster, fun slot hslot => ?_⟩
        dsimp only at hslot
        split at hslot
        · obtain hslot | hslot := List.mem_append.mp hslot
          · exact hc.lfn slot hslot
          · rw [List.mem_singleton.mp hslot]
            exact hplace
        · exact hc.lfn slot hslot
      rw [if_neg hlong]
      by_cases hlabel : (dirEntryAt sector (32 * i)).isVolumeId = true
      · rw [if_pos hlabel]
        exact ih h _ ⟨fun _ => hcluster, by simp⟩
      rw [if_neg hlabel]
      refine .pure ⟨.refl h, ⟨fun _ => hcluster, by simp⟩, ?_⟩
      rintro item ⟨⟩
      exact ⟨hplace, hc.lfn⟩

theorem findItemFrom_looks (hb : FatLayout b) (h : AtWork b s) (fuel : Nat) (name : List UInt8)
    (n : Nat) (c : Fat32DirCursor) (hc : CursorPlaces b c) :
    Ensures (fat32FindItemFrom fuel name n c) s fun r t => Looks b s t ∧ ∀ item, r = some item →
      ItemPlaces b item := by
  induction n generalizing s c with
  | zero => exact .none
  | succ n ih =>
    refine .bind (cursorNext_looks hb h fuel c hc) fun r s₁ h₁ => ?_
    obtain ⟨item, c'⟩ := r
    cases item with
    | none => exact .pure ⟨h₁.1, by simp⟩
    | some item =>
      have hnext := (ih h₁.1.1 c' h₁.2.1).mono fun r t ht =>
        (⟨h₁.1.trans ht.1, ht.2⟩ : Looks b s t ∧ ∀ item, r = some item → ItemPlaces b item)
      refine .ite (fun _ => hnext) fun _ => .ite (fun _ => .pure ⟨h₁.1, ?_⟩) fun _ => hnext
      rintro _ ⟨⟩
      exact h₁.2.2 item rfl

theorem findItemInDir_looks (hb : FatLayout b) (h : AtWork b s) (fuel : Nat) (dir : Fat32DirRef)
    (name : List UInt8) :
    Ensures (fat32FindItemInDir fuel dir name) s fun r t => Looks b s t ∧ ∀ item, r = some item →
      ItemPlaces b item :=
  findItemFrom_looks hb h fuel name fuel _ ⟨by simp [fat32CursorInit], by simp [fat32CursorInit]⟩

theorem findEntryInDir_looks (hb : FatLayout b) (h : AtWork b s) (fuel : Nat) (dir : Fat32DirRef)
    (name : List UInt8) :
    Ensures (fat32FindEntryInDir fuel dir name) s fun r t => Looks b s t ∧
      ∀ slot, r = some slot → EntryPlace b slot.sectorLba slot.byteOffset := by
  refine .bind (findItemInDir_looks hb h fuel dir name) fun r s₁ h₁ => ?_
  cases r with
  | none => exact .pure ⟨h₁.1, by simp⟩
  | some item =>
    refine .pure ⟨h₁.1, ?_⟩
    rintro _ ⟨⟩
    exact (h₁.2 item rfl).entry

theorem resolveParentFrom_looks (hb : FatLayout b) (h : AtWork b s) (fuel n : Nat)
    (dir : Fat32DirRef) (component cursor : List UInt8) :
    Ensures (fat32ResolveParentFrom fuel n dir component cursor) s fun _ t => Looks b s t := by
  induction n generalizing s dir component cursor with
  | zero => exact .none
  | succ n ih =>
    unfold fat32ResolveParentFrom
    cases fat32SplitPathComponent cursor with
    | none => exact .pure (.refl h)
    | some p =>
      refine .bind (findEntryInDir_looks hb h fuel dir component) fun r s₁ h₁ => ?_
      cases r with
      | none => exact .pure h₁.1
      | some slot =>
        exact .ite (fun _ => (ih h₁.1.1 _ _ _).mono fun _ t ht => h₁.1.trans ht) fun _ => .pure h₁.1

theorem resolveParent_looks (hb : FatLayout b) (h : AtWork b s) (fuel : Nat) (path : List UInt8) :
    Ensures (fat32ResolveParent fuel path) s fun _ t => Looks b s t := by
  unfold fat32ResolveParent
  refine .get_bind ?_
  cases fat32SplitPathComponent path with
  | none => exact .pure (.refl h)
  | some p => exact resolveParentFrom_looks hb h fuel _ _ _ _

theorem resolvePath_looks (hb : FatLayout b) (h : AtWork b s) (fuel : Nat) (path : List UInt8) :
    Ensures (fat32ResolvePath fuel path) s fun r t => Looks b s t ∧
      ∀ dir slot, r = some (dir, slot) → EntryPlace b slot.sectorLba slot.byteOffset := by
  refine .bind (resolveParent_looks hb h fuel path) fun r s₁ h₁ => ?_
  cases r with
  | none => exact .pure ⟨h₁, by simp⟩
  | some p =>
    refine .ite (fun _ => .pure ⟨h₁, by simp⟩) fun _ => ?_
    refine .bind (findEntryInDir_looks hb h₁.1 fuel p.1 p.2) fun r s₂ h₂ => ?_
    cases r with
    | none => exact .pure ⟨h₁.trans h₂.1, by simp⟩
    | some slot =>
      refine .pure ⟨h₁.trans h₂.1, ?_⟩
      rintro _ _ ⟨⟩
      exact h₂.2 slot rfl

end Monios.Analysis
