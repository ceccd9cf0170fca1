import Monios.Analysis.FatLayout

/-!
# What the calls on the FAT change

`fat32_set_fat_entry` gives all copies of one entry a new value (`setFatEntry_sets`). The calls that
allocate, free and link clusters are put together from it, and change no entries but those of the
clusters they return or are called for.
-/

set_option autoImplicit false

namespace Monios.Analysis

open Monios.Library Monios.Model

variable {b s s' t : Fat32} {c v : Nat} {A : Nat → Prop} {D : Nat → Nat → Prop}

def noClusters : Nat → Prop := fun _ => False

def noBytes : Nat → Nat → Prop := fun _ _ => False

theorem patchEntry_self (sector : Sector) (c v : Nat) :
    fat32Masked ((fat32PatchEntry sector c v).u32 (fat32FatOffset c)) = fat32Masked v := by
  have hv : fat32Masked v < 2 ^ 28 := Nat.mod_lt _ (by decide)
  have hcurrent := sector.u32_lt (fat32FatOffset c)
  unfold fat32PatchEntry
  rw [Block.u32_patch_self _ (by omega) (by rw [fatOffset_mod]; omega)]
  unfold fat32Masked at hv ⊢
  omega

theorem patchEntry_of_ne {d : Nat} (sector : Sector) (v : Nat) (hne : c % 128 ≠ d % 128) :
    (fat32PatchEntry sector c v).u32 (fat32FatOffset d) = sector.u32 (fat32FatOffset d) := by
  unfold fat32PatchEntry
  rw [Block.u32_patch_of_disjoint _ (by rw [fatOffset_mod, fatOffset_mod, length_le32]; omega)]

structure CopiesSet (b : Fat32) (c v : Nat) (l : List Nat) (s t : Fat32) : Prop where
  work : AtWork b t
  rest : ∃ disk trace cache next seq, t =
    { s with disk := disk, trace := trace, fatCache := cache, walNext := next, walSeq := seq }
  set : ∀ k ∈ l, copyEntry b t.disk k c = fat32Masked v
  kept : ∀ k d, k < b.bpb.fatCount → d < b.clusterCount + 2 → (d ≠ c ∨ k ∉ l) →
    copyEntry b t.disk k d = copyEntry b s.disk k d
  data : ∀ x, InData b x → t.disk x = s.disk x

theorem setFatCopy_sets (hb : FatLayout b) (h : AtWork b s) (hc : c < b.clusterCount + 2) {k : Nat}
    (hk : k < b.bpb.fatCount) :
    Ensures (fat32SetFatCopy c v k) s fun _ t => CopiesSet b c v [k] s t := by
  have hlt := hb.fatSector_lt hk hc
  have hend := dataLba_le b
  obtain ⟨disk, trace, next, seq, hwrite, hdisk⟩ :=
    loggedWriteSector_disk hb h (fat32FatSector b k c)
    (fat32PatchEntry (s.disk (fat32FatSector b k c)) c v)
  have hentries : ∀ l d, l < b.bpb.fatCount → d < b.clusterCount + 2 → copyEntry b disk l d =
      if l = k ∧ d = c then fat32Masked v else copyEntry b s.disk l d := by
    intro l d hl hd
    have hlt' := hb.fatSector_lt hl hd
    unfold copyEntry
    rw [hdisk _ (by omega)]
    by_cases hsame : fat32FatSector b l d = fat32FatSector b k c
    · obtain ⟨rfl, hindex⟩ := hb.fatSector_inj hl hk hd hc hsame
      rw [if_pos hsame]
      by_cases hdc : d = c
      · rw [if_pos ⟨rfl, hdc⟩, hdc, patchEntry_self]
      · rw [if_neg fun hand => hdc hand.2, patchEntry_of_ne _ _ (by omega), hsame]
    · rw [if_neg hsame, if_neg]
      rintro ⟨rfl, rfl⟩
      exact hsame rfl
  have hdata : ∀ x, InData b x → disk x = s.disk x := by
    intro x hx
    rw [hdisk x hx.2, if_neg (by unfold InData at hx; omega)]
  have hkept : ∀ l d, l < b.bpb.fatCount → d < b.clusterCount + 2 → (d ≠ c ∨ l ∉ [k]) →
      copyEntry b disk l d = copyEntry b s.disk l d := by
    intro l d hl hd hne
    rw [hentries l d hl hd, if_neg]
    rintro ⟨rfl, rfl⟩
    simp at hne
  have hset : ∀ l ∈ [k], copyEntry b disk l c = fat32Masked v := by
    intro l hl
    obtain rfl := List.mem_singleton.mp hl
    rw [hentries l c hk hc, if_pos ⟨rfl, rfl⟩]
  -- the FAT cache after the write
  have hcache : ∀ x sector, s.fatCache = some (x, sector) → x ≠ fat32FatSector b k c →
      b.fatLba ≤ x → x < b.fatLba + b.bpb.fatSize32 → sector = disk x := by
    intro x sector hx hne hlow hhigh
    have hcopy : b.bpb.fatSize32 ≤ b.bpb.fatCount * b.bpb.fatSize32 :=
      Nat.le_mul_of_pos_left _ hb.copies
    have hfats := hb.fats
    rw [h.cache x sector hx hlow hhigh, hdisk x (by omega), if_neg hne]
  have hrun : fat32SetFatCopy c v k s = (if k = 0 then
      change (fat32RefreshFatCache (fat32FatSector s k c) (fat32PatchEntry (s.disk (fat32FatSector s k c)) c v))
      else pure ()) (fat32LoggedWriteSector s (fat32FatSector s k c)
        (fat32PatchEntry (s.disk (fat32FatSector s k c)) c v)) := rfl
  rw [h.fatSector, hwrite] at hrun
  by_cases hk0 : k = 0
  · rw [if_pos hk0, change_apply] at hrun
    refine .of_run hrun ?_
    unfold fat32RefreshFatCache
    dsimp only
    cases hold : s.fatCache with
    | none =>
      exact ⟨⟨h.bpb, h.fatLba, h.dataLba, h.clusterCount, h.walOn, h.walLogLba, h.walMax, by rintro _ _ ⟨⟩⟩,
        ⟨_, _, _, _, _, rfl⟩, hset, hkept, hdata⟩
    | some p =>
      obtain ⟨x, sector⟩ := p
      dsimp only
      by_cases hx : x = fat32FatSector b k c
      · rw [if_pos hx]
        refine ⟨⟨h.bpb, h.fatLba, h.dataLba, h.clusterCount, h.walOn, h.walLogLba, h.walMax, ?_⟩,
          ⟨_, _, _, _, _, rfl⟩,
          hset, hkept, hdata⟩
        rintro y image ⟨⟩ _ _
        change _ = disk x
        rw [hdisk x (by omega), if_pos hx]
      · rw [if_neg hx]
        refine ⟨⟨h.bpb, h.fatLba, h.dataLba, h.clusterCount, h.walOn, h.walLogLba, h.walMax, ?_⟩,
          ⟨_, _, _, _, _, rfl⟩,
          hset, hkept, hdata⟩
        rintro y image ⟨⟩
        exact hcache x sector hold hx
  · rw [if_neg hk0] at hrun
    refine .of_run hrun ⟨⟨h.bpb, h.fatLba, h.dataLba, h.clusterCount, h.walOn, h.walLogLba, h.walMax, ?_⟩,
      ⟨_, _, _, _, _, rfl⟩, hset, hkept, hdata⟩
    intro x sector hx hlow hhigh
    refine hcache x sector hx (fun heq => hk0 ?_) hlow hhigh
    obtain ⟨hsector, -⟩ := hb.fatSector_eq hk hc
    by_contra hpos
    have hcopy : b.bpb.fatSize32 ≤ k * b.bpb.fatSize32 :=
      Nat.le_mul_of_pos_left _ (Nat.pos_of_ne_zero hpos)
    omega

theorem setFatCopies_set (hb : FatLayout b) (h : AtWork b s) (hc : c < b.clusterCount + 2)
    {l : List Nat} (hl : ∀ k ∈ l, k < b.bpb.fatCount) :
    Ensures (l.forM (fat32SetFatCopy c v)) s fun _ t => CopiesSet b c v l s t := by
  induction l generalizing s with
  | nil =>
    exact .pure ⟨h, ⟨_, _, _, _, _, rfl⟩, by simp, fun _ _ _ _ _ => rfl, fun _ _ => rfl⟩
  | cons k l ih =>
    change Ensures (fat32SetFatCopy c v k >>= fun _ => l.forM (fat32SetFatCopy c v)) s _
    refine .bind (setFatCopy_sets hb h hc (hl k List.mem_cons_self)) fun _ s₁ h₁ => ?_
    refine (ih h₁.work fun j hj => hl j (List.mem_cons_of_mem _ hj)).mono fun _ t h₂ => ?_
    obtain ⟨disk, trace, cache, next, seq, rfl⟩ := h₁.rest
    obtain ⟨disk', trace', cache', next', seq', rfl⟩ := h₂.rest
    refine ⟨h₂.work, ⟨_, _, _, _, _, rfl⟩, fun j hj => ?_, fun j d hj hd hne => ?_,
      fun x hx => (h₂.data x hx).trans (h₁.data x hx)⟩
    · by_cases hmem : j ∈ l
      · exact h₂.set j hmem
      · obtain rfl : j = k := (List.mem_cons.mp hj).resolve_right hmem
        rw [h₂.kept j c (hl j List.mem_cons_self) hc (.inr hmem)]
        exact h₁.set j List.mem_cons_self
    · rw [List.mem_cons, not_or] at hne
      rw [h₂.kept j d hj hd (hne.imp_right And.right), h₁.kept j d hj hd (hne.imp_right fun hn => by simpa using hn.1)]

structure EntrySet (b : Fat32) (c v : Nat) (s t : Fat32) : Prop where
  touches : Touches b (fun d => d = c) noBytes s t
  value : ∀ k, k < b.bpb.fatCount → copyEntry b t.disk k c = fat32Masked v

theorem setFatEntry_sets (hb : FatLayout b) (h : AtWork b s) (hc : c < b.clusterCount + 2)
    (v : Nat) :
    Ensures (fat32SetFatEntry c v) s fun _ t => EntrySet b c v s t := by
  have hall : Ensures (fat32SetFatEntry c v) s fun _ t => CopiesSet b c v (List.range b.bpb.fatCount) s t := by
    refine .get_bind ?_
    rw [h.bpb]
    exact setFatCopies_set hb h hc fun k hk => List.mem_range.mp hk
  refine hall.mono fun _ t ht => ⟨⟨ht.work, ht.rest, fun k d hk hd hne => ht.kept k d hk hd (.inl hne),
    fun x hx i _ => by rw [ht.data x hx], fun hmirror k d hk hd => ?_⟩, fun k hk => ht.set k (List.mem_range.mpr hk)⟩
  by_cases hdc : d = c
  · rw [hdc, ht.set k (List.mem_range.mpr hk), ht.set 0 (List.mem_range.mpr hb.copies)]
  · rw [ht.kept k d hk hd (.inl hdc), ht.kept 0 d hb.copies hd (.inl hdc)]
    exact hmirror k d hk hd

theorem inRange_bounds (h : fat32InRange b c = true) : 2 ≤ c ∧ c < b.clusterCount + 2 := by
  simp only [fat32InRange, Bool.and_eq_true, decide_eq_true_eq] at h
  exact h

/-- What `fat32_allocate_cluster` has done: it has marked a free cluster as the end of a chain, or
there is none. -/
inductive Allocated (b s : Fat32) : Nat → Fat32 → Prop
  | full {t : Fat32} (hfull : ∀ d, fat32InRange b d = true → copyEntry b s.disk 0 d ≠ fat32ClusterFree)
      (looks : Looks b s t) : Allocated b s 0 t
  | taken {c : Nat} {t : Fat32} (hc : fat32InRange b c = true) (hfree : copyEntry b s.disk 0 c = fat32ClusterFree)
      (sets : EntrySet b c fat32ClusterEnd s t) : Allocated b s c t

theorem Allocated.touches {c : Nat} (h : Allocated b s c t) :
    Touches b (fun d => d = c) noBytes s t := by
  cases h with
  | full _ looks => exact looks.touches
  | taken _ _ sets => exact sets.touches

theorem allocateFrom_ensures (hb : FatLayout b) {n : Nat} (h : AtWork b s) (hlow : 2 ≤ c)
    (hn : c + n = b.clusterCount + 2)
    (hbefore : ∀ d, fat32InRange b d = true → d < c → copyEntry b s.disk 0 d ≠ fat32ClusterFree) :
    Ensures (fat32AllocateFrom n c) s (Allocated b s) := by
  induction n generalizing s c with
  | zero =>
    refine .pure (.full (fun d hd => hbefore d hd ?_) (.refl h))
    have := (inRange_bounds hd).2
    omega
  | succ n ih =>
    obtain ⟨s₁, hrun, hlooks⟩ := getFatEntry_looks hb h (c := c) (by omega)
    refine .run_bind hrun ?_
    refine .ite (fun hfree => ?_) fun hused => ?_
    · refine .bind (setFatEntry_sets hb hlooks.1 (by omega) _) fun _ t ht => .pure
        (.taken ?_ hfree ⟨?_, ht.value⟩)
      · simp only [fat32InRange, Bool.and_eq_true, decide_eq_true_eq]
        omega
      · exact hlooks.touches.trans ht.touches
    · have hdisk := hlooks.disk
      refine (ih hlooks.1 (by omega) (by omega) fun d hd hlt => ?_).mono fun d t ht => ?_
      · rw [hdisk]
        by_cases hdc : d = c
        · rw [hdc]
          exact hused
        · exact hbefore d hd (by omega)
      · cases ht with
        | full hfull looks => exact .full (fun d hd => hdisk ▸ hfull d hd) (hlooks.trans looks)
        | taken hc hfree sets =>
          exact .taken hc (hdisk ▸ hfree) ⟨hlooks.touches.trans sets.touches, sets.value⟩

theorem allocateCluster_ensures (hb : FatLayout b) (h : AtWork b s) :
    Ensures fat32AllocateCluster s (Allocated b s) := by
  refine .get_bind ?_
  rw [h.clusterCount]
  refine allocateFrom_ensures hb h le_rfl (Nat.add_comm _ _) fun d hd hlt => ?_
  have := (inRange_bounds hd).1
  omega

theorem AtWork.smallVolume (h : AtWork b s) (hb : FatLayout b) : SmallVolume s := by
  have hsmall := hb.small
  unfold SmallVolume at hsmall ⊢
  rw [h.clusterCount]
  exact hsmall

theorem zeroCluster_ensures (hb : FatLayout b) (h : AtWork b s) (hc : fat32InRange b c = true) :
    Ensures (fat32ZeroCluster c) s fun _ t => Touches b A (fun x _ => x ∈ clusterLbas b c) s t ∧
      ∀ x ∈ clusterLbas b c, t.disk x = Block.zero := by
  refine .of_run rfl ?_
  dsimp only
  rw [h.clusterToLba, h.bpb]
  refine ⟨writeCluster_touches hb h hc (by rw [List.length_replicate]), fun x hx => ?_⟩
  obtain ⟨i, hi, rfl⟩ := List.mem_map.mp hx
  exact ataWriteSectors_zero _ _ _ (w32_lt _) (.inr ⟨i, List.mem_range.mp hi, rfl⟩)

theorem writeClusterData_touches (hb : FatLayout b) (h : AtWork b s) (hc : fat32InRange b c = true)
    (data : List UInt8) :
    Ensures (fat32WriteClusterData c data) s fun _ t => Touches b A
      (fun x _ => x ∈ clusterLbas b c) s t := by
  refine .of_run rfl ?_
  dsimp only
  rw [h.clusterToLba, h.bpb]
  exact writeCluster_touches hb h hc (by simp [clusterSectors])

theorem freeChain_touches (hb : FatLayout b) (h : AtWork b s) (fuel c : Nat) :
    Ensures (fat32FreeChain fuel c) s fun _ t => Touches b (fun _ => True) noBytes s t := by
  induction fuel generalizing s c with
  | zero => exact .none
  | succ fuel ih =>
    refine .get_bind (.ite (fun hc => ?_) fun _ => .pure (.refl h))
    rw [h.inRange] at hc
    obtain ⟨s₁, hrun, hlooks⟩ := getFatEntry_looks hb h (inRange_bounds hc).2
    refine .run_bind hrun (.bind (setFatEntry_sets hb hlooks.1 (inRange_bounds hc).2 _) fun _ s₂ h₂ => ?_)
    have hset : Touches b (fun _ => True) noBytes s s₂ :=
      hlooks.touches.trans (h₂.touches.mono (fun _ _ => trivial) fun _ _ => id)
    exact .ite (fun _ => .pure hset) fun _ => (ih hset.work _).mono fun _ t ht => hset.trans ht

theorem linkCluster_touches (hb : FatLayout b) (h : AtWork b s) {previous : Nat}
    (hp : previous = 0 ∨ fat32InRange b previous = true) (hc : fat32InRange b c = true) :
    Ensures (fat32LinkCluster previous c) s fun _ t => Touches b
      (fun d => d = c ∨ d = previous) noBytes s t ∧
      copyEntry b t.disk 0 c = fat32ClusterEnd ∧
      (previous ≠ 0 → previous ≠ c → copyEntry b t.disk 0 previous = c) := by
  have hmasked : fat32Masked c = c := by
    have hsmall := hb.small
    have := (inRange_bounds hc).2
    unfold SmallVolume fat32ClusterBad at hsmall
    exact Nat.mod_eq_of_lt (by omega)
  have hmark : ∀ s₁, Touches b (fun d => d = c ∨ d = previous) noBytes s s₁ →
      (previous ≠ 0 → copyEntry b s₁.disk 0 previous = c) →
      Ensures (fat32SetFatEntry c fat32ClusterEnd) s₁ fun _ t => Touches b (fun d => d = c ∨ d = previous) noBytes s t ∧
        copyEntry b t.disk 0 c = fat32ClusterEnd ∧
        (previous ≠ 0 → previous ≠ c → copyEntry b t.disk 0 previous = c) := by
    intro s₁ h₁ hprevious
    refine (setFatEntry_sets hb h₁.work (inRange_bounds hc).2 _).mono fun _ t ht =>
      ⟨h₁.trans (ht.touches.mono (fun d hd => .inl hd) fun _ _ => id), ht.value 0 hb.copies, fun h0 hne => ?_⟩
    rw [ht.touches.entries 0 previous hb.copies (inRange_bounds (hp.resolve_left h0)).2 hne]
    exact hprevious h0
  refine .ite (fun h0 => ?_) fun h0 => .run_bind rfl (hmark s (.refl h) fun hn => absurd hn h0)
  refine .bind (setFatEntry_sets hb h (inRange_bounds (hp.resolve_left h0)).2 c) fun _ s₁ h₁ => ?_
  refine hmark s₁ (h₁.touches.mono (fun d hd => .inr hd) fun _ _ => id) fun _ => ?_
  rw [h₁.value 0 hb.copies, hmasked]

theorem dirSectorWalk_looks (hb : FatLayout b) (h : AtWork b s) (rounds remaining cluster : Nat) :
    Ensures (fat32DirSectorWalk rounds remaining cluster) s fun r t => Looks b s t ∧
      ∀ lba c, r = some (lba, c) → fat32InRange b c = true ∧ lba ∈ clusterLbas b c := by
  induction rounds generalizing remaining cluster s with
  | zero => exact .pure ⟨.refl h, by simp⟩
  | succ rounds ih =>
    refine .get_bind (.ite (fun hc => ?_) fun _ => .pure ⟨.refl h, by simp⟩)
    rw [h.inRange] at hc
    refine .ite (fun hlt => .pure ⟨.refl h, ?_⟩) fun _ => ?_
    · rintro lba c ⟨⟩
      rw [h.bpb] at hlt
      rw [h.clusterToLba]
      exact ⟨hc, List.mem_map.mpr ⟨remaining, List.mem_range.mpr hlt, rfl⟩⟩
    · obtain ⟨s₁, hrun, hlooks⟩ := getFatEntry_looks hb h (inRange_bounds hc).2
      refine .run_bind hrun (.ite (fun _ => .pure ⟨hlooks, by simp⟩) fun _ => ?_)
      exact (ih hlooks.1 _ _).mono fun r t ht => ⟨hlooks.trans ht.1, ht.2⟩

theorem readDirSector_looks (hb : FatLayout b) (h : AtWork b s) (dir : Fat32DirRef)
    (sectorIndex : Nat) :
    Ensures (fat32ReadDirSector dir sectorIndex) s fun r t => Looks b s t ∧
      ∀ sector c, r = some (sector, c) → fat32InRange b c = true := by
  refine .bind (dirSectorWalk_looks hb h _ _ _) fun r s₁ h₁ => ?_
  cases r with
  | none => exact .pure ⟨h₁.1, by simp⟩
  | some p =>
    refine .pure ⟨h₁.1, ?_⟩
    rintro sector c ⟨⟩
    exact (h₁.2 p.1 p.2 rfl).1

end Monios.Analysis
