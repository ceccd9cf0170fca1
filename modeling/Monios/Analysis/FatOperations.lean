import Monios.Analysis.FatDirectory
import Monios.Model.FatCalls

/-!
# The FAT32 driver at work on any volume

What a call leaves of a volume is the same, whatever stands on it (`Changes`): the FAT cache agrees
with the disk, and copies of the FAT that were equal are equal. Only a directory that grows has to
be sound as far as its links go (`LinksInside`), because the search for its last cluster does not
look where they lead.
-/

set_option autoImplicit false

namespace Monios.Analysis

open Monios.Library Monios.Model

variable {b s s' t : Fat32} {c : Nat} {A : Nat → Prop} {D : Nat → Nat → Prop}

def Changes (b s t : Fat32) : Prop := Touches b (fun _ => True) (fun _ _ => True) s t

namespace Changes

theorem refl (h : AtWork b s) : Changes b s s := Touches.refl h

theorem trans (h : Changes b s s') (h' : Changes b s' t) : Changes b s t := Touches.trans h h'

end Changes

/-- Writing the tables and some sectors is a change. -/
theorem Touches.changes (h : Touches b A D s t) : Changes b s t :=
  h.mono (fun _ _ => trivial) fun _ _ _ => trivial

/-- Looking is no change. -/
theorem Looks.changes (h : Looks b s t) : Changes b s t := h.touches

def LinksInside (b : Fat32) (disk : Nat → Sector) (start : Nat) : Prop :=
  ∃ S : Nat → Prop, S start ∧ ∀ c, S c → c < b.clusterCount + 2 ∧
    (fat32IsEndCluster (copyEntry b disk 0 c) = false → S (copyEntry b disk 0 c))

namespace LinksInside

variable {disk disk' : Nat → Sector} {start : Nat}

theorem of_entries (h : LinksInside b disk start) (hkept : ∀ c, c < b.clusterCount + 2 →
    copyEntry b disk' 0 c = copyEntry b disk 0 c ∨ fat32IsEndCluster
    (copyEntry b disk' 0 c) = true) :
    LinksInside b disk' start := by
  obtain ⟨S, hstart, hlinks⟩ := h
  refine ⟨S, hstart, fun c hc => ⟨(hlinks c hc).1, fun hend => ?_⟩⟩
  obtain heq | hend' := hkept c (hlinks c hc).1
  · rw [heq] at hend ⊢
    exact (hlinks c hc).2 hend
  · rw [hend'] at hend
    cases hend

end LinksInside

/-- The links of a directory stay inside when the volume is only looked at. -/
theorem LinksInside.looks {start : Nat} (h : LinksInside b s.disk start) (hlooks : Looks b s t) :
    LinksInside b t.disk start := by
  rw [hlooks.disk]
  exact h

theorem isEnd_clusterEnd : fat32IsEndCluster (fat32Masked fat32ClusterEnd) = true := by decide

/-- They stay inside when a cluster is allocated. -/
theorem LinksInside.allocated {start : Nat} (hb : FatLayout b) (h : LinksInside b s.disk start)
    (ha : Allocated b s c t) :
    LinksInside b t.disk start := by
  cases ha with
  | full _ looks => exact h.looks looks
  | taken _ _ sets =>
    refine h.of_entries fun d hd => ?_
    by_cases hdc : d = c
    · right
      rw [hdc, sets.value 0 hb.copies]
      exact isEnd_clusterEnd
    · exact .inl (sets.touches.entries 0 d hb.copies hd hdc)

/-- The search for the end of a chain stays on the volume. -/
theorem chainLast_looks (hb : FatLayout b) (h : AtWork b s) {fuel : Nat}
    (hin : LinksInside b s.disk c) :
    Ensures (fat32ChainLast fuel c) s fun last t => last < b.clusterCount + 2 ∧ Looks b s t := by
  induction fuel generalizing s c with
  | zero => exact .none
  | succ fuel ih =>
    obtain ⟨S, hstart, hlinks⟩ := hin
    have hc := (hlinks c hstart).1
    obtain ⟨s₁, hrun, hlooks⟩ := getFatEntry_looks hb h hc
    obtain ⟨s₂, hrun', hlooks'⟩ := getFatEntry_looks hb hlooks.1 hc
    rw [hlooks.disk] at hrun'
    refine .run_bind hrun (.ite (fun _ => .pure ⟨hc, hlooks⟩) fun hend => .run_bind hrun' ?_)
    have hnext : LinksInside b s₂.disk (copyEntry b s.disk 0 c) := by
      rw [hlooks'.disk, hlooks.disk]
      exact ⟨S, (hlinks c hstart).2 (Bool.not_eq_true _ ▸ hend), hlinks⟩
    exact (ih hlooks'.1 hnext).mono fun last t ht => ⟨ht.1, (hlooks.trans hlooks').trans ht.2⟩

/-- A directory is extended by one cluster of the volume. -/
theorem extendDir_changes (hb : FatLayout b) (h : AtWork b s) {fuel : Nat} {dir : Fat32DirRef}
    (hin : LinksInside b s.disk dir.startCluster) :
    Ensures (fat32ExtendDir fuel dir) s fun _ t => Changes b s t ∧
      LinksInside b t.disk dir.startCluster := by
  refine .bind (allocateCluster_ensures hb h) fun d s₁ h₁ => ?_
  have hin₁ := hin.allocated hb h₁
  have hchanges₁ := h₁.touches.changes
  cases h₁ with
  | full _ looks => exact .pure ⟨hchanges₁, hin₁⟩
  | taken hd _ sets =>
    have hlt := (inRange_bounds hd).2
    refine .ite (fun h0 => absurd hd (by rw [h0]; simp [fat32InRange])) fun _ => ?_
    refine .bind (zeroCluster_ensures (A := noClusters) hb sets.touches.work hd) fun _ s₂ h₂ => ?_
    have hin₂ : LinksInside b s₂.disk dir.startCluster :=
      hin₁.of_entries fun e he => .inl (h₂.1.entries 0 e hb.copies he id)
    refine .bind (chainLast_looks hb h₂.1.work hin₂) fun last s₃ h₃ => ?_
    refine .bind (setFatEntry_sets hb h₃.2.1 h₃.1 d) fun _ s₄ h₄ => ?_
    refine .bind (setFatEntry_sets hb h₄.touches.work hlt fat32ClusterEnd) fun _ t h₅ => .pure ⟨?_,
      ?_⟩
    · exact (((hchanges₁.trans h₂.1.changes).trans h₃.2.changes).trans h₄.touches.changes).trans h₅.touches.changes
    · obtain ⟨S, hstart, hlinks⟩ := hin₂.looks h₃.2
      have hmasked : fat32Masked d = d := by
        have hsmall := hb.small
        unfold SmallVolume fat32ClusterBad at hsmall
        exact Nat.mod_eq_of_lt (by omega)
      have hend : fat32IsEndCluster (copyEntry b t.disk 0 d) = true := by
        rw [h₅.value 0 hb.copies]
        exact isEnd_clusterEnd
      -- the new cluster joins the clusters that are reached
      refine ⟨fun e => S e ∨ e = d, .inl hstart, fun e he => ?_⟩
      have hlt' : e < b.clusterCount + 2 := he.elim (fun he => (hlinks e he).1) fun he => he ▸ hlt
      refine ⟨hlt', fun hnext => ?_⟩
      have hed : e ≠ d := by
        rintro rfl
        rw [hend] at hnext
        cases hnext
      rw [h₅.touches.entries 0 e hb.copies hlt' hed] at hnext ⊢
      by_cases hel : e = last
      · rw [hel, h₄.value 0 hb.copies, hmasked]
        exact .inr rfl
      · rw [h₄.touches.entries 0 e hb.copies hlt' hel] at hnext ⊢
        exact .inl ((hlinks e (he.resolve_right hed)).2 hnext)

def SlotInside (b : Fat32) (slot : Fat32DirSlot) : Prop := InData b slot.sectorLba

theorem SlotInside.withEntry {slot : Fat32DirSlot} (h : SlotInside b slot) (entry : Fat32DirEntry) :
    SlotInside b { slot with entry := entry } := h

/-- A slot that is found lies in a cluster of the volume. -/
theorem freshSlot_inside (hb : FatLayout b) (h : AtWork b s) (dir : Fat32DirRef)
    (hc : fat32InRange b c = true) (index i : Nat) :
    SlotInside b (fat32FreshSlot s dir c index i) := by
  unfold SlotInside fat32FreshSlot
  dsimp only
  rw [h.clusterToLba, h.bpb]
  exact (hb.clusterSector_eq hc (Nat.mod_lt _ hb.spc)).2

/-- The search for a free slot extends the directory if need be. -/
theorem findFreeSlotFrom_changes (hb : FatLayout b) {fuel : Nat} {dir : Fat32DirRef}
    (n index : Nat) (h : AtWork b s) (hin : LinksInside b s.disk dir.startCluster) :
    Ensures (fat32FindFreeSlotFrom fuel dir n index) s fun r t => Changes b s t ∧
      ∀ slot, r = some slot → SlotInside b slot := by
  induction n generalizing s index with
  | zero => exact .pure ⟨.refl h, by simp⟩
  | succ n ih =>
    refine .bind (readDirSector_looks hb h dir index) fun r s₁ h₁ => ?_
    have hin₁ := hin.looks h₁.1
    cases r with
    | none =>
      refine .bind (extendDir_changes hb h₁.1.1 hin₁) fun done s₂ h₂ => ?_
      have hchanges := h₁.1.changes.trans h₂.1
      refine .ite (fun _ => ?_) fun _ => .pure ⟨hchanges, by simp⟩
      exact (ih (index + 1) h₂.1.work h₂.2).mono fun r t ht => ⟨hchanges.trans ht.1, ht.2⟩
    | some p =>
      obtain ⟨sector, cluster⟩ := p
      dsimp only
      cases (List.range 16).find? fun i => sector.byte (32 * i) == 0x00 || sector.byte (32 * i) == 0xE5 with
      | none => exact (ih (index + 1) h₁.1.1 hin₁).mono fun r t ht => ⟨h₁.1.changes.trans ht.1, ht.2⟩
      | some i =>
        refine .get_bind (.pure ⟨h₁.1.changes, ?_⟩)
        rintro slot ⟨⟩
        exact freshSlot_inside hb h₁.1.1 dir (h₁.2 _ _ rfl) index i

theorem findEndMarker_looks (hb : FatLayout b) (h : AtWork b s) (dir : Fat32DirRef)
    (fuel si : Nat) :
    Ensures (fat32FindEndMarker dir fuel si) s fun _ t => Looks b s t := by
  induction fuel generalizing s si with
  | zero => exact .none
  | succ fuel ih =>
    refine .bind (readDirSector_looks hb h dir si) fun r s₁ h₁ => ?_
    cases r with
    | none => exact .pure h₁.1
    | some p =>
      dsimp only
      cases (List.range 16).find? fun ei => p.1.byte (32 * ei) == 0x00 with
      | none => exact (ih h₁.1.1 _).mono fun _ t ht => h₁.1.trans ht
      | some ei => exact .pure h₁.1

theorem countDirSectors_looks (hb : FatLayout b) (h : AtWork b s) (dir : Fat32DirRef)
    (fuel s2 : Nat) :
    Ensures (fat32CountDirSectors dir fuel s2) s fun _ t => Looks b s t := by
  induction fuel generalizing s s2 with
  | zero => exact .none
  | succ fuel ih =>
    refine .bind (readDirSector_looks hb h dir s2) fun r s₁ h₁ => ?_
    cases r with
    | none => exact .pure h₁.1
    | some p => exact .bind (ih h₁.1.1 _) fun _ t ht => .pure (h₁.1.trans ht)

/-- The slots that are taken lie in the directory. -/
theorem takeSlots_looks (hb : FatLayout b) (h : AtWork b s) (dir : Fat32DirRef)
    (count csi cei csc : Nat) (hcsc : fat32InRange b csc = true) :
    Ensures (fat32TakeSlots dir count csi cei csc) s fun slots t => Looks b s t ∧
      ∀ slot ∈ slots, SlotInside b slot := by
  induction count generalizing s csi cei csc with
  | zero => exact .pure ⟨.refl h, by simp⟩
  | succ count ih =>
    have hslot := freshSlot_inside hb h dir hcsc csi cei
    refine .get_bind (.ite (fun _ => ?_) fun _ => ?_)
    · refine .bind (P := fun c t => Looks b s t ∧ fat32InRange b c = true)
        (.bind (readDirSector_looks hb h dir _)
        fun r s₁ h₁ => ?_) fun c s₁ h₁ => .bind (ih h₁.1.1 _ _ _ h₁.2) fun slots t ht => .pure ⟨h₁.1.trans ht.1, ?_⟩
      · cases r with
        | none => exact .pure ⟨h₁.1, hcsc⟩
        | some p => exact .pure ⟨h₁.1, h₁.2 _ _ rfl⟩
      · exact List.forall_mem_cons.mpr ⟨hslot, ht.2⟩
    · exact .bind (ih h _ _ _ hcsc) fun slots t ht => .pure ⟨ht.1,
        List.forall_mem_cons.mpr ⟨hslot, ht.2⟩⟩

/-- Slots are appended, with new clusters if need be. -/
theorem allocAppendFrom_changes (hb : FatLayout b) {fuel : Nat} {dir : Fat32DirRef}
    (count attempts : Nat) (h : AtWork b s) (hin : LinksInside b s.disk dir.startCluster) :
    Ensures (fat32AllocAppendFrom fuel dir count attempts) s fun r t => Changes b s t ∧
      ∀ slots, r = some slots → ∀ slot ∈ slots, SlotInside b slot := by
  induction attempts generalizing s with
  | zero => exact .pure ⟨.refl h, by simp⟩
  | succ attempts ih =>
    have hextend : ∀ s₁, Looks b s s₁ → Ensures (fat32ExtendDir fuel dir >>= fun done =>
        if done then fat32AllocAppendFrom fuel dir count attempts else pure none) s₁ fun r t => Changes b s t ∧
          ∀ slots, r = some slots → ∀ slot ∈ slots, SlotInside b slot := by
      intro s₁ h₁
      refine .bind (extendDir_changes hb h₁.1 (hin.looks h₁)) fun done s₂ h₂ => ?_
      have hchanges := h₁.changes.trans h₂.1
      refine .ite (fun _ => ?_) fun _ => .pure ⟨hchanges, by simp⟩
      exact (ih h₂.1.work h₂.2).mono fun r t ht => ⟨hchanges.trans ht.1, ht.2⟩
    refine .bind (findEndMarker_looks hb h dir fuel 0) fun r s₁ h₁ => ?_
    cases r with
    | none => exact hextend s₁ h₁
    | some p =>
      refine .bind (countDirSectors_looks hb h₁.1 dir fuel _) fun behind s₂ h₂ => ?_
      have hlooks := h₁.trans h₂
      refine .ite (fun _ => hextend s₂ hlooks) fun _ => .bind
        (readDirSector_looks hb h₂.1 dir p.1) fun r s₃ h₃ => ?_
      cases r with
      | none => exact .pure ⟨(hlooks.trans h₃.1).changes, by simp⟩
      | some q =>
        refine .bind (takeSlots_looks hb h₃.1.1 dir count _ _ _ (h₃.2 _ _ rfl)) fun slots t ht =>
          .pure ⟨?_, ?_⟩
        · exact ((hlooks.trans h₃.1).trans ht.1).changes
        · rintro _ ⟨⟩
          exact ht.2

/-- Writing a slot writes one sector of the data area. -/
theorem writeSlot_changes (hb : FatLayout b) (h : AtWork b s) {slot : Fat32DirSlot}
    (hslot : SlotInside b slot) :
    Ensures (fat32WriteSlot slot) s fun _ t => Changes b s t :=
  .of_run rfl (loggedWriteSector_touches hb h hslot fun _ hn => absurd trivial hn)

theorem resolveShort_looks (hb : FatLayout b) (h : AtWork b s) (fuel : Nat) (dir : Fat32DirRef)
    (longName : List UInt8) (n num : Nat) :
    Ensures (fat32ResolveShort fuel dir longName n num) s fun _ t => Looks b s t := by
  induction n generalizing s num with
  | zero => exact .pure (.refl h)
  | succ n ih =>
    refine .bind (findEntryInDir_looks hb h fuel dir _) fun r s₁ h₁ => ?_
    cases r with
    | none => exact .pure h₁.1
    | some slot => exact (ih h₁.1.1 _).mono fun _ t ht => h₁.1.trans ht

/-- `fat32_create_named_entry` writes slots of the directory. -/
theorem createNamedEntry_changes (hb : FatLayout b) (h : AtWork b s) {fuel : Nat}
    {dir : Fat32DirRef} (hin : LinksInside b s.disk dir.startCluster) (longName : List UInt8) :
    Ensures (fat32CreateNamedEntry fuel dir longName) s fun r t => Changes b s t ∧
      ∀ slot, r = some slot → SlotInside b slot := by
  refine .ite (fun _ => ?_) fun _ => ?_
  · refine .bind (.get_bind (findFreeSlotFrom_changes hb _ 0 h hin)) fun r s₁ h₁ => ?_
    cases r with
    | none => exact .pure ⟨h₁.1, by simp⟩
    | some slot =>
      refine .pure ⟨h₁.1, ?_⟩
      rintro _ ⟨⟩
      exact h₁.2 slot rfl
  · refine .bind (resolveShort_looks hb h fuel dir longName _ _) fun r s₁ h₁ => ?_
    cases r with
    | none => exact .pure ⟨h₁.changes, by simp⟩
    | some short =>
      refine .bind (allocAppendFrom_changes hb _ _ h₁.1 (hin.looks h₁)) fun r s₂ h₂ => ?_
      have hchanges := h₁.changes.trans h₂.1
      cases r with
      | none => exact .pure ⟨hchanges, by simp⟩
      | some slots =>
        -- the long-name entries go to the slots that have been found
        have hslots := h₂.2 slots rfl
        refine .bind (.forM (I := fun t => Changes b s t) _ (fun k _ s₃ h₃ => ?_) hchanges) fun _ t ht => .pure ⟨ht, ?_⟩
        · cases hk : slots[k]? with
          | none => exact .pure h₃
          | some slot =>
            exact .bind (writeSlot_changes hb h₃.work ((hslots slot (List.mem_of_getElem? hk)).withEntry _)) fun _ s₄ h₄ =>
              .pure (h₃.trans h₄)
        · intro slot hslot
          obtain ⟨found, hfound, rfl⟩ := Option.map_eq_some_iff.mp hslot
          exact hslots found (List.mem_of_getElem? hfound)

end Monios.Analysis

/-!
# The operations of the FAT32 driver on any volume

Every call on a path either looks at the volume only, or drops the read cache and then works on it
(`Performed`). A call that makes an entry needs a directory that can grow (`ParentInside`).
-/

namespace Monios.Analysis

open Monios.Library Monios.Model

variable {b s s' t : Fat32} {fuel : Nat} {path : List UInt8}

def Performed (b s t : Fat32) : Prop := Looks b s t ∨ Changes b (fat32ClearReadCache s) t

def ParentInside (b : Fat32) (fuel : Nat) (path : List UInt8) (s : Fat32) : Prop :=
  ∀ u dir name t, Looks b s u → fat32ResolveParent fuel path u = some (some (dir, name), t) →
    LinksInside b s.disk dir.startCluster

theorem AtWork.clearReadCache (h : AtWork b s) : AtWork b (fat32ClearReadCache s) :=
  ⟨h.bpb, h.fatLba, h.dataLba, h.clusterCount, h.walOn, h.walLogLba, h.walMax, h.cache⟩

theorem Looks.clearReadCache (h : Looks b s t) :
    Looks b (fat32ClearReadCache s) (fat32ClearReadCache t) := by
  obtain ⟨hwork, cache, rfl⟩ := h
  exact ⟨hwork.clearReadCache, cache, rfl⟩

/-- The directory of a path that is found can grow. -/
theorem resolveParent_inside (hb : FatLayout b) (hin : ParentInside b fuel path s)
    (h : Looks b s s') :
    Ensures (fat32ResolveParent fuel path) s' fun r t => Looks b s t ∧
      ∀ dir name, r = some (dir, name) → LinksInside b t.disk dir.startCluster := by
  intro r t hrun
  have hlooks := h.trans (resolveParent_looks hb h.1 fuel path r t hrun)
  refine ⟨hlooks, ?_⟩
  rintro dir name rfl
  rw [hlooks.disk]
  exact hin s' dir name t h hrun

/-- A chain is written cluster by cluster, each allocated before. -/
theorem writeChain_changes (hb : FatLayout b) (h : AtWork b s) (n : Nat) (data : List UInt8)
    (first previous : Nat) (hp : previous = 0 ∨ fat32InRange b previous = true) :
    Ensures (fat32WriteChain fuel n data first previous) s fun _ t => Changes b s t := by
  induction n generalizing s data first previous with
  | zero => exact .none
  | succ n ih =>
    refine .ite (fun _ => .pure (.refl h)) fun _ => .bind (allocateCluster_ensures hb h) fun d s₁ h₁ => ?_
    have hchanges := h₁.touches.changes
    cases h₁ with
    | full _ looks =>
      refine .ite (fun _ => .ite (fun _ => ?_) fun _ => .pure hchanges) fun hn => absurd rfl hn
      exact .bind (freeChain_touches hb looks.1 fuel first) fun _ t ht => .pure
        (hchanges.trans ht.changes)
    | taken hd _ sets =>
      refine .ite (fun h0 => absurd hd (by rw [h0]; simp [fat32InRange])) fun _ => ?_
      refine .bind (linkCluster_touches hb sets.touches.work hp hd) fun _ s₂ h₂ => ?_
      refine .bind (writeClusterData_touches (A := noClusters) hb h₂.1.work hd data) fun _ s₃ h₃ =>
        .get_bind ?_
      have hall := (hchanges.trans h₂.1.changes).trans h₃.changes
      exact (ih hall.work _ _ d (.inr hd)).mono fun _ t ht => hall.trans ht

/-- Opening for writing frees the old chain or makes an entry. -/
theorem openForWrite_changes (hb : FatLayout b) (h : AtWork b s) {parent : Fat32DirRef}
    (hin : LinksInside b s.disk parent.startCluster) (component : List UInt8) (isDir failed : Int) :
    Ensures (fat32OpenForWrite fuel parent component isDir failed) s fun r t => Changes b s t ∧
      ∀ slot, r = .ok slot → SlotInside b slot := by
  refine .bind (findEntryInDir_looks hb h fuel parent component) fun r s₁ h₁ => ?_
  have hchanges := h₁.1.changes
  cases r with
  | none =>
    refine .bind (createNamedEntry_changes hb h₁.1.1 (hin.looks h₁.1) component) fun r s₂ h₂ => ?_
    cases r with
    | none => exact .pure ⟨hchanges.trans h₂.1, by simp⟩
    | some slot =>
      refine .pure ⟨hchanges.trans h₂.1, ?_⟩
      rintro _ ⟨⟩
      exact h₂.2 slot rfl
  | some slot =>
    have hslot : ∀ found, (Except.ok slot : Except Int Fat32DirSlot) = .ok found →
        SlotInside b found := by
      rintro _ ⟨⟩
      exact (h₁.2 slot rfl).1
    refine .ite (fun _ => .pure ⟨hchanges, by simp⟩) fun _ => .ite (fun _ => ?_) fun _ => ?_
    · exact .bind (freeChain_touches hb h₁.1.1 fuel _) fun _ t ht => .pure
        ⟨hchanges.trans ht.changes, hslot⟩
    · exact .pure ⟨hchanges, hslot⟩

/-- `fat32_write_file` changes clusters of the volume only. -/
theorem writeFile_performed (hb : FatLayout b) (h : AtWork b s) (hin : ParentInside b fuel path s)
    (data : List UInt8) :
    Ensures (fat32WriteFile fuel path data) s fun _ t => Performed b s t := by
  refine .get_bind (.ite (fun _ => .pure (.inl (.refl h))) fun _ => ?_)
  refine .bind (resolveParent_inside hb hin (.refl h)) fun r s₁ h₁ => ?_
  cases r with
  | none => exact .pure (.inl h₁.1)
  | some p =>
    refine .ite (fun _ => .pure (.inl h₁.1)) fun _ => .run_bind rfl ?_
    have hclear := h₁.1.clearReadCache
    refine .bind (openForWrite_changes hb hclear.1 (h₁.2 _ _ rfl) _ _ _) fun r s₂ h₂ => ?_
    have hopened := hclear.changes.trans h₂.1
    cases r with
    | error code => exact .pure (.inr hopened)
    | ok slot =>
      refine .bind (writeChain_changes hb hopened.work _ data 0 0 (.inl rfl)) fun r s₃ h₃ => ?_
      have hwritten := hopened.trans h₃
      cases r with
      | none => exact .pure (.inr hwritten)
      | some first =>
        refine .bind (writeSlot_changes hb hwritten.work ((h₂.2 slot rfl).withEntry _)) fun done t ht => ?_
        exact .ite (fun _ => .pure (.inr (hwritten.trans ht))) fun _ => .pure
          (.inr (hwritten.trans ht))

/-- `fat32_delete` changes clusters of the volume only. -/
theorem delete_performed (hb : FatLayout b) (h : AtWork b s) (path : List UInt8) :
    Ensures (fat32Delete fuel path) s fun _ t => Performed b s t := by
  refine .get_bind (.ite (fun _ => .pure (.inl (.refl h))) fun _ => ?_)
  refine .bind (resolvePath_looks hb h fuel path) fun r s₁ h₁ => ?_
  cases r with
  | none => exact .pure (.inl h₁.1)
  | some p =>
    obtain ⟨dir, slot⟩ := p
    have hslot : SlotInside b slot := (h₁.2 dir slot rfl).1
    refine .run_bind rfl ?_
    have hclear := h₁.1.clearReadCache.changes
    refine .ite (fun _ => .pure (.inr hclear)) fun _ => .ite (fun _ => ?_) fun _ => ?_
    · refine .bind (freeChain_touches hb hclear.work fuel _) fun _ s₂ h₂ => ?_
      exact .mono (writeSlot_changes hb h₂.work (hslot.withEntry _)) fun _ t ht => .inr
        ((hclear.trans h₂.changes).trans ht)
    · exact .mono (writeSlot_changes hb hclear.work (hslot.withEntry _)) fun _ t ht => .inr
        (hclear.trans ht)

end Monios.Analysis
