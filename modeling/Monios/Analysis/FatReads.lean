import Monios.Analysis.FatAccess
import Monios.Library.Run
import Monios.Model.Vfs
import Mathlib.Data.Nat.ModEq
import Mathlib.Tactic.Ring

/-!
# What a read of a FAT32 file depends on

`fat32_read_file` and `fat32_read_file_at` look at the first FAT and at the sectors of the clusters
of the volume only. Two states that have these in common, and whose FAT caches agree with their
disks, give the same answers (`fat32Read_sim`).
-/

set_option autoImplicit false

namespace Monios.Analysis

open Monios.Library Monios.Model

structure SameFiles (b u : Fat32) : Prop where
  bpb : u.bpb = b.bpb
  fatLba : u.fatLba = b.fatLba
  dataLba : u.dataLba = b.dataLba
  clusterCount : u.clusterCount = b.clusterCount
  ready : u.ready = b.ready
  fat : ∀ c, fat32InRange b c = true → u.disk (fat32FatSector b 0 c) = b.disk (fat32FatSector b 0 c)
  data : ∀ c, fat32InRange b c = true → ∀ lba ∈ clusterLbas b c, u.disk lba = b.disk lba

/-- `n` links along the FAT from `c`; `none` is the end of the chain, and from a number that is
not a cluster no link is taken. -/
def walkLinks (b : Fat32) : Nat → Nat → Option Nat
  | 0, c => some c
  | n + 1, c =>
    if fat32InRange b c then
      if fat32IsEndCluster (fatEntry b c) then none else walkLinks b n (fatEntry b c)
    else some c

def ReadCacheOk (b s : Fat32) : Prop :=
  s.readCacheValid = true → walkLinks b s.readCacheClusterIndex s.readCacheStartCluster = some s.readCacheCluster

/-- The state `s` is `b` with other contents of the two caches, of which the FAT cache agrees with
the disk, and under the condition `P` the read cache as well. -/
structure Upto (P : Prop) (b s : Fat32) : Prop where
  eq : ∃ cache path valid start index cluster,
    s = { b with
      fatCache := cache
      readCachePath := path
      readCacheValid := valid
      readCacheStartCluster := start
      readCacheClusterIndex := index
      readCacheCluster := cluster }
  cache : CacheOk s
  read : P → ReadCacheOk b s

def Reading (P : Prop) (b u s t : Fat32) : Prop := Upto P b s ∧ Upto P u t

section

variable {P : Prop} {b u s t : Fat32}

namespace Upto

theorem refl (h : CacheOk b) (hread : P → ReadCacheOk b b) : Upto P b b :=
  ⟨⟨_, _, _, _, _, _, rfl⟩, h, hread⟩

theorem weaken (h : Upto P b s) : Upto False b s := ⟨h.eq, h.cache, False.elim⟩

theorem disk (h : Upto P b s) : s.disk = b.disk := by
  obtain ⟨⟨cache, path, valid, start, index, cluster, rfl⟩, -, -⟩ := h
  rfl

theorem bpb (h : Upto P b s) : s.bpb = b.bpb := by
  obtain ⟨⟨cache, path, valid, start, index, cluster, rfl⟩, -, -⟩ := h
  rfl

theorem ready (h : Upto P b s) : s.ready = b.ready := by
  obtain ⟨⟨cache, path, valid, start, index, cluster, rfl⟩, -, -⟩ := h
  rfl

theorem inRange (h : Upto P b s) (c : Nat) : fat32InRange s c = fat32InRange b c := by
  obtain ⟨⟨cache, path, valid, start, index, cluster, rfl⟩, -, -⟩ := h
  rfl

theorem clusterToLba (h : Upto P b s) (c : Nat) :
    fat32ClusterToLba s c = fat32ClusterToLba b c := by
  obtain ⟨⟨cache, path, valid, start, index, cluster, rfl⟩, -, -⟩ := h
  rfl

theorem cursorLba (h : Upto P b s) (c : Fat32DirCursor) :
    fat32CursorLba s c = fat32CursorLba b c := by
  obtain ⟨⟨cache, path, valid, start, index, cluster, rfl⟩, -, -⟩ := h
  rfl

theorem readCache (h : Upto P b s) (path : List UInt8) (valid : Bool) (start index cluster : Nat) :
    Upto False b { s with
      readCachePath := path
      readCacheValid := valid
      readCacheStartCluster := start
      readCacheClusterIndex := index
      readCacheCluster := cluster } := by
  obtain ⟨⟨cache, path', valid', start', index', cluster', rfl⟩, hcache, -⟩ := h
  exact ⟨⟨cache, path, valid, start, index, cluster, rfl⟩, hcache, False.elim⟩

theorem getFatEntry (h : Upto P b s) (c : Nat) :
    ∃ s', fat32GetFatEntry c s = some (fatEntry b c, s') ∧ Upto P b s' := by
  obtain ⟨cache, hrun, hon⟩ := getFatEntry_on (OnVolume.refl h.cache) c
  have hread := h.read
  obtain ⟨⟨cache', path, valid, start, index, cluster, rfl⟩, -, -⟩ := h
  exact ⟨_, hrun, ⟨_, _, _, _, _, _, rfl⟩, hon.2, hread⟩

end Upto

namespace SameFiles

theorem inRange (h : SameFiles b u) (c : Nat) : fat32InRange u c = fat32InRange b c := by
  simp only [fat32InRange, h.clusterCount]

theorem clusterToLba (h : SameFiles b u) (c : Nat) :
    fat32ClusterToLba u c = fat32ClusterToLba b c := by
  simp only [fat32ClusterToLba, h.dataLba, h.bpb]

theorem fatEntry_eq (h : SameFiles b u) {c : Nat} (hc : fat32InRange b c = true) :
    fatEntry u c = fatEntry b c := by
  have hsector : fat32FatSector u 0 c = fat32FatSector b 0 c := by
    simp only [fat32FatSector, h.fatLba, h.bpb]
  unfold fatEntry
  rw [hsector, h.fat c hc]

theorem cursorLba (h : SameFiles b u) (c : Fat32DirCursor) :
    fat32CursorLba u c = fat32CursorLba b c := by
  simp only [fat32CursorLba, h.clusterToLba, h.bpb]

end SameFiles

theorem mem_clusterLbas {c i : Nat} (hi : i < b.bpb.sectorsPerCluster) :
    w32 (fat32ClusterToLba b c + i) ∈ clusterLbas b c :=
  List.mem_map.mpr ⟨i, List.mem_range.mpr hi, rfl⟩

/-- The same entry of the FAT is read on both sides. -/
theorem getFatEntry_sim (hbu : SameFiles b u) (h : Reading P b u s t) {c : Nat}
    (hc : fat32InRange b c = true) :
    SimAt (Reading P b u) (fat32GetFatEntry c) (fat32GetFatEntry c) s t := by
  obtain ⟨s', hs, hs'⟩ := h.1.getFatEntry c
  obtain ⟨t', ht, ht'⟩ := h.2.getFatEntry c
  unfold SimAt
  rw [hs, ht]
  exact ⟨(hbu.fatEntry_eq hc).symm, hs', ht'⟩

/-- A sector that is the same on both disks is read alike. -/
theorem readSector_sim (h : Reading P b u s t) {lba : Nat} (hlba : u.disk lba = b.disk lba) :
    SimAt (Reading P b u) (readSector lba) (readSector lba) s t := by
  refine ⟨?_, h⟩
  show s.disk lba = t.disk lba
  rw [h.1.disk, h.2.disk, hlba]

/-- The walk to a sector of a directory goes through the same clusters. -/
theorem dirSectorWalk_sim (hbu : SameFiles b u) (rounds remaining cluster : Nat)
    (h : Reading P b u s t) :
    SimAt (Reading P b u) (fat32DirSectorWalk rounds remaining cluster)
      (fat32DirSectorWalk rounds remaining cluster) s t := by
  induction rounds generalizing remaining cluster s t with
  | zero => exact .pure _ h
  | succ rounds ih =>
    unfold fat32DirSectorWalk
    refine .get_bind ?_
    rw [h.1.inRange, h.2.inRange, hbu.inRange, h.1.bpb, h.2.bpb, hbu.bpb, h.1.clusterToLba,
      h.2.clusterToLba, hbu.clusterToLba]
    refine .ite Iff.rfl (fun hc => ?_) fun _ => .pure _ h
    refine .ite Iff.rfl (fun _ => .pure _ h) fun _ => ?_
    exact .bind (getFatEntry_sim hbu h hc) fun next s' t' h' =>
      .ite Iff.rfl (fun _ => .pure _ h') fun _ => ih _ _ h'

/-- The sector that the walk ends at lies in a cluster of the volume. -/
theorem dirSectorWalk_lba (h : Upto P b s) {rounds remaining cluster lba c : Nat} {s' : Fat32}
    (hrun : fat32DirSectorWalk rounds remaining cluster s = some (some (lba, c), s')) :
    ∃ d, fat32InRange b d = true ∧ lba ∈ clusterLbas b d := by
  induction rounds generalizing remaining cluster s with
  | zero => simp [fat32DirSectorWalk] at hrun
  | succ rounds ih =>
    unfold fat32DirSectorWalk at hrun
    simp only [bind_apply, get_apply, Option.bind_some, h.inRange, h.bpb, h.clusterToLba] at hrun
    split at hrun
    · next hc =>
        split at hrun
        · next hlt =>
            simp only [pure_apply, Option.some.injEq, Prod.mk.injEq] at hrun
            exact ⟨cluster, hc, hrun.1.1 ▸ mem_clusterLbas hlt⟩
        · obtain ⟨s₁, hentry, hs₁⟩ := h.getFatEntry cluster
          simp only [bind_apply, hentry, Option.bind_some] at hrun
          split at hrun
          · simp at hrun
          · exact ih hs₁ hrun
    · simp at hrun

/-- A sector of a directory is read alike. -/
theorem readDirSector_sim (hbu : SameFiles b u) (dir : Fat32DirRef) (index : Nat)
    (h : Reading P b u s t) :
    SimAt (Reading P b u) (fat32ReadDirSector dir index) (fat32ReadDirSector dir index) s t := by
  unfold fat32ReadDirSector
  refine SimAt.bind_of (P := fun r => ∀ lba c, r = some (lba, c) → u.disk lba = b.disk lba)
    (dirSectorWalk_sim hbu _ _ _ h) ?_ ?_
  · rintro r s' hrun lba c rfl
    obtain ⟨d, hd, hlba⟩ := dirSectorWalk_lba h.1 hrun
    exact hbu.data d hd lba hlba
  · intro r s' t' hr h'
    cases r with
    | none => exact .pure _ h'
    | some p =>
      exact .bind (readSector_sim h' (hr p.1 p.2 rfl)) fun sector s'' t'' h'' => .pure _ h''

theorem cursorEntry_eq (hbu : SameFiles b u) (h : Reading P b u s t) (c : Fat32DirCursor)
    (sector : Sector) :
    fat32CursorEntry t c sector = fat32CursorEntry s c sector := by
  unfold fat32CursorEntry
  rw [h.1.cursorLba, h.2.cursorLba, hbu.cursorLba]

/-- The cursor of a directory advances alike. -/
theorem cursorNext_sim (hbu : SameFiles b u) (fuel : Nat) (c : Fat32DirCursor)
    (h : Reading P b u s t) :
    SimAt (Reading P b u) (fat32CursorNext fuel c) (fat32CursorNext fuel c) s t := by
  induction fuel generalizing c s t with
  | zero => exact .none
  | succ fuel ih =>
    unfold fat32CursorNext
    refine .ite Iff.rfl (fun _ => .pure _ h) fun _ => ?_
    cases c.sector with
    | none =>
      refine .bind (readDirSector_sim hbu _ _ h) fun r s' t' h' => ?_
      cases r with
      | none => exact .pure _ h'
      | some p => exact ih _ h'
    | some sector =>
      refine .ite Iff.rfl (fun _ => .get_bind ?_) fun _ => ih _ h
      rw [cursorEntry_eq hbu h]
      cases fat32CursorEntry s c sector with
      | stop => exact .pure _ h
      | skip lfn => exact ih _ h
      | found item => exact .pure _ h

/-- The search of an item, by long or by short name, finds the same slot. -/
theorem findItemFrom_sim (hbu : SameFiles b u) (fuel : Nat) (name : List UInt8) (n : Nat)
    (c : Fat32DirCursor) (h : Reading P b u s t) :
    SimAt (Reading P b u) (fat32FindItemFrom fuel name n c)
      (fat32FindItemFrom fuel name n c) s t := by
  induction n generalizing c s t with
  | zero => exact .none
  | succ n ih =>
    unfold fat32FindItemFrom
    refine .bind (cursorNext_sim hbu fuel c h) fun r s' t' h' => ?_
    obtain ⟨item, c'⟩ := r
    cases item with
    | none => exact .pure _ h'
    | some item =>
      exact .ite Iff.rfl (fun _ => ih _ h') fun _ => .ite Iff.rfl (fun _ => .pure _ h') fun _ =>
        ih _ h'

/-- The look-up of a name in a directory is the same. -/
theorem findEntryInDir_sim (hbu : SameFiles b u) (fuel : Nat) (dir : Fat32DirRef)
    (name : List UInt8) (h : Reading P b u s t) :
    SimAt (Reading P b u) (fat32FindEntryInDir fuel dir name)
      (fat32FindEntryInDir fuel dir name) s t := by
  unfold fat32FindEntryInDir fat32FindItemInDir
  refine .bind (findItemFrom_sim hbu fuel name fuel _ h) fun r s' t' h' => ?_
  cases r with
  | none => exact .pure _ h'
  | some item => exact .pure _ h'

/-- The directories of a path are the same. -/
theorem resolveParentFrom_sim (hbu : SameFiles b u) (fuel n : Nat) (dir : Fat32DirRef)
    (component cursor : List UInt8) (h : Reading P b u s t) :
    SimAt (Reading P b u) (fat32ResolveParentFrom fuel n dir component cursor)
      (fat32ResolveParentFrom fuel n dir component cursor) s t := by
  induction n generalizing dir component cursor s t with
  | zero => exact .none
  | succ n ih =>
    unfold fat32ResolveParentFrom
    cases fat32SplitPathComponent cursor with
    | none => exact .pure _ h
    | some p =>
      refine .bind (findEntryInDir_sim hbu fuel dir component h) fun r s' t' h' => ?_
      cases r with
      | none => exact .pure _ h'
      | some slot => exact .ite Iff.rfl (fun _ => ih _ _ _ h') fun _ => .pure _ h'

/-- A path leads to the same slot. -/
theorem resolvePath_sim (hbu : SameFiles b u) (fuel : Nat) (path : List UInt8)
    (h : Reading P b u s t) :
    SimAt (Reading P b u) (fat32ResolvePath fuel path) (fat32ResolvePath fuel path) s t := by
  have hparent : SimAt (Reading P b u) (fat32ResolveParent fuel path) (fat32ResolveParent fuel path) s t := by
    unfold fat32ResolveParent
    refine .get_bind ?_
    rw [h.1.bpb, h.2.bpb, hbu.bpb]
    cases fat32SplitPathComponent path with
    | none => exact .pure _ h
    | some p => exact resolveParentFrom_sim hbu fuel _ _ _ _ h
  unfold fat32ResolvePath
  refine .bind hparent fun r s' t' h' => ?_
  cases r with
  | none => exact .pure _ h'
  | some p =>
    refine .ite Iff.rfl (fun _ => .pure _ h') fun _ => ?_
    refine .bind (findEntryInDir_sim hbu fuel p.1 p.2 h') fun r s' t' h' => ?_
    cases r with
    | none => exact .pure _ h'
    | some slot => exact .pure _ h'

/-- The sectors of a cluster are read alike. -/
theorem readClusterFrom_sim (hbu : SameFiles b u) {bufferSize cluster : Nat}
    (hc : fat32InRange b cluster = true) {n sectorIndex bytesLeft : Nat}
    (hn : sectorIndex + n ≤ b.bpb.sectorsPerCluster) (dst : List UInt8) (h : Reading P b u s t) :
    SimAt (Reading P b u) (fat32ReadClusterFrom bufferSize cluster n sectorIndex bytesLeft dst)
      (fat32ReadClusterFrom bufferSize cluster n sectorIndex bytesLeft dst) s t := by
  induction n generalizing sectorIndex bytesLeft dst s t with
  | zero => exact .pure _ h
  | succ n ih =>
    unfold fat32ReadClusterFrom
    refine .ite Iff.rfl (fun _ => .pure _ h) fun _ => .ite Iff.rfl (fun _ => .pure _ h) fun _ => ?_
    refine .get_bind ?_
    rw [h.1.clusterToLba, h.2.clusterToLba, hbu.clusterToLba]
    have hlba := hbu.data cluster hc _ (mem_clusterLbas (i := sectorIndex) (by omega))
    exact .bind (readSector_sim h hlba) fun sector s' t' h' => ih (by omega) _ h'

/-- The chain of a file is read alike. -/
theorem readChain_sim (hbu : SameFiles b u) (bufferSize fuel cluster bytesLeft : Nat)
    (dst : List UInt8) (h : Reading P b u s t) :
    SimAt (Reading P b u) (fat32ReadChain bufferSize fuel cluster bytesLeft dst)
      (fat32ReadChain bufferSize fuel cluster bytesLeft dst) s t := by
  induction fuel generalizing cluster bytesLeft dst s t with
  | zero => exact .none
  | succ fuel ih =>
    unfold fat32ReadChain
    refine .get_bind ?_
    rw [h.1.inRange, h.2.inRange, hbu.inRange, h.1.bpb, h.2.bpb, hbu.bpb]
    refine .ite Iff.rfl (fun hc => ?_) fun _ => .pure _ h
    have hrange := (Bool.and_eq_true_iff.mp hc).1
    refine .bind (readClusterFrom_sim hbu hrange (by omega) dst h) fun r s' t' h' => ?_
    refine .ite Iff.rfl (fun _ => .pure _ h') fun _ => ?_
    exact .bind (getFatEntry_sim hbu h' hrange) fun next s'' t'' h'' =>
      .ite Iff.rfl (fun _ => .pure _ h'') fun _ => ih _ _ _ h''

/-- `fat32_read_file` returns the same on volumes with the same files. -/
theorem readFile_sim (hbu : SameFiles b u) (fuel : Nat) (path : List UInt8) (bufferSize : Nat)
    (h : Reading P b u s t) :
    SimAt (Reading P b u) (fat32ReadFile fuel path bufferSize)
      (fat32ReadFile fuel path bufferSize) s t := by
  unfold fat32ReadFile
  refine .get_bind ?_
  rw [h.1.ready, h.2.ready, hbu.ready]
  refine .ite Iff.rfl (fun _ => .pure _ h) fun _ => ?_
  refine .bind (resolvePath_sim hbu fuel path h) fun r s' t' h' => ?_
  cases r with
  | none => exact .pure _ h'
  | some p =>
    refine .ite Iff.rfl (fun _ => .pure _ h') fun _ => ?_
    exact .bind (readChain_sim hbu _ _ _ _ _ h') fun r s'' t'' h'' =>
      .ite Iff.rfl (fun _ => .pure _ h'') fun _ => .pure _ h''

/-- The walk along the links stays at a cluster outside the volume. -/
theorem walkLinks_of_not_inRange {c : Nat} (hc : fat32InRange b c = false) (n : Nat) :
    walkLinks b n c = some c := by
  cases n with
  | zero => rfl
  | succ n => simp [walkLinks, hc]

/-- A walk in two parts. -/
theorem walkLinks_add (m n c : Nat) :
    walkLinks b (m + n) c = (walkLinks b m c).bind (walkLinks b n) := by
  induction m generalizing c with
  | zero => simp [walkLinks]
  | succ m ih =>
    rw [Nat.succ_add]
    cases hc : fat32InRange b c with
    | false => simp [walkLinks, hc, walkLinks_of_not_inRange hc]
    | true =>
      simp only [walkLinks, hc, if_true]
      split
      · rfl
      · exact ih _

theorem SameFiles.walkLinks_eq (hbu : SameFiles b u) (n c : Nat) :
    walkLinks u n c = walkLinks b n c := by
  induction n generalizing c with
  | zero => rfl
  | succ n ih =>
    unfold walkLinks
    rw [hbu.inRange]
    split
    · next hc => rw [hbu.fatEntry_eq hc, ih]
    · rfl

/-- The walk of the code is the walk along the links. -/
theorem walkClusters_on (h : Upto P b s) (n c : Nat) :
    ∃ s', fat32WalkClusters n c s = some (walkLinks b n c, s') ∧ Upto P b s' := by
  induction n generalizing c s with
  | zero => exact ⟨s, rfl, h⟩
  | succ n ih =>
    unfold fat32WalkClusters walkLinks
    simp only [bind_apply, get_apply, Option.bind_some, h.inRange]
    cases hc : fat32InRange b c with
    | false => exact ⟨s, rfl, h⟩
    | true =>
      obtain ⟨s₁, hentry, hs₁⟩ := h.getFatEntry c
      simp only [if_true, bind_apply, hentry, Option.bind_some]
      cases hend : fat32IsEndCluster (fatEntry b c) with
      | true => exact ⟨s₁, rfl, hs₁⟩
      | false =>
        obtain ⟨s', hrun, hs'⟩ := ih hs₁ (fatEntry b c)
        exact ⟨s', by simpa using hrun, hs'⟩

/-- A hit in the read cache stands where the walk would come to. -/
theorem walkLinks_hit (h : Upto True b s) {path : List UInt8} {first target cluster index : Nat}
    (hhit : fat32ReadCacheHit s path first target = some (cluster, index)) :
    walkLinks b (target - index) cluster = walkLinks b target first := by
  have hread := h.read trivial
  unfold fat32ReadCacheHit at hhit
  split at hhit
  · next hcond =>
      simp only [Bool.and_eq_true, beq_iff_eq, decide_eq_true_eq] at hcond
      obtain ⟨⟨⟨⟨hvalid, -⟩, hstart⟩, -⟩, hle⟩ := hcond
      obtain ⟨rfl, rfl⟩ := Prod.mk.inj (Option.some.inj hhit)
      have hcached := hread hvalid
      rw [hstart] at hcached
      have hsplit := walkLinks_add (b := b) s.readCacheClusterIndex (target - s.readCacheClusterIndex) first
      rw [hcached, Nat.add_sub_cancel' hle] at hsplit
      exact hsplit.symm
  · simp at hhit

structure ChainsInside (b : Fat32) : Prop where
  count : b.clusterCount + 2 < 2 ^ 32
  last : fatEntry b (b.clusterCount + 1) ≠ b.clusterCount + 2

/-- The next cluster of a contiguous piece is a cluster of the volume. -/
theorem ChainsInside.next (hin : ChainsInside b) {c : Nat} (hc : fat32InRange b c = true)
    (hnext : fatEntry b c = w32 (c + 1)) : w32 (c + 1) = c + 1 ∧ fat32InRange b (c + 1) = true := by
  have hcount := hin.count
  have hlast := hin.last
  simp only [fat32InRange, Bool.and_eq_true, decide_eq_true_eq] at hc ⊢
  by_cases heq : c = b.clusterCount + 1
  · subst heq
    have hlt : fatEntry b (b.clusterCount + 1) < 2 ^ 28 := Nat.mod_lt _ (by decide)
    exfalso
    unfold w32 at hnext
    omega
  · unfold w32
    omega

/-- The probe for contiguous clusters finds the same piece. -/
theorem probeContiguous_sim (hbu : SameFiles b u) (hin : ChainsInside b) (n : Nat) {probe : Nat}
    (hc : fat32InRange b probe = true) (h : Reading P b u s t) :
    SimAt (Reading P b u) (fat32ProbeContiguous n probe) (fat32ProbeContiguous n probe) s t := by
  induction n generalizing probe s t with
  | zero => exact .pure _ h
  | succ n ih =>
    unfold fat32ProbeContiguous
    refine SimAt.bind_of (P := fun next => next = fatEntry b probe) (getFatEntry_sim hbu h hc) ?_ ?_
    · intro next s' hrun
      obtain ⟨s₁, hs₁, -⟩ := h.1.getFatEntry probe
      exact (Prod.mk.inj (Option.some.inj (hrun.symm.trans hs₁))).1
    · intro next s' t' hnext h'
      refine .ite Iff.rfl (fun heq => ?_) fun _ => .pure _ h'
      obtain ⟨hw, hrange⟩ := hin.next hc (hnext ▸ heq)
      rw [heq, hw]
      exact ih hrange h'

/-- The last cluster of the piece is a cluster of the volume, and so are those before it. -/
theorem probeContiguous_answer (hin : ChainsInside b) (n : Nat) {probe last : Nat} {s' : Fat32}
    (hc : fat32InRange b probe = true) (h : Upto P b s)
    (hrun : fat32ProbeContiguous n probe s = some (last, s')) :
    probe ≤ last ∧ fat32InRange b last = true := by
  induction n generalizing probe s with
  | zero =>
    obtain ⟨rfl, -⟩ := Prod.mk.inj (Option.some.inj hrun)
    exact ⟨le_rfl, hc⟩
  | succ n ih =>
    obtain ⟨s₁, hentry, hs₁⟩ := h.getFatEntry probe
    unfold fat32ProbeContiguous at hrun
    simp only [bind_apply, hentry, Option.bind_some] at hrun
    split at hrun
    · next heq =>
        obtain ⟨hw, hrange⟩ := hin.next hc heq
        rw [heq, hw] at hrun
        have := ih hrange hs₁ hrun
        exact ⟨by omega, this.2⟩
    · obtain ⟨rfl, -⟩ := Prod.mk.inj (Option.some.inj hrun)
      exact ⟨le_rfl, hc⟩

/-- Several sectors that are the same on both disks are read alike. -/
theorem readSectors_sim (n : Nat) {lba : Nat} (hlba : lba < 2 ^ 32)
    (hdisk : ∀ k, k < n → u.disk (w32 (lba + k)) = b.disk (w32 (lba + k))) (h : Reading P b u s t) :
    SimAt (Reading P b u) (readSectors lba n) (readSectors lba n) s t := by
  induction n generalizing lba s t with
  | zero => exact .pure _ h
  | succ n ih =>
    unfold readSectors
    have h0 := hdisk 0 (by omega)
    have hself : w32 (lba + 0) = lba := Nat.mod_eq_of_lt hlba
    rw [hself] at h0
    refine .bind (readSector_sim h h0) fun sector s' t' h' => ?_
    refine .bind (ih (w32_lt _) (fun k hk => ?_) h') fun rest s'' t'' h'' => .pure _ h''
    rw [w32_w32_add, Nat.add_assoc, Nat.add_comm 1 k]
    exact hdisk (k + 1) (by omega)

theorem clusterToLba_add (c j i : Nat) : w32 (fat32ClusterToLba b (c + j) + i) =
      w32 (fat32ClusterToLba b c + (j * b.bpb.sectorsPerCluster + i)) := by
  unfold fat32ClusterToLba
  rw [w32_w32_add, w32_w32_add]
  have hmul : ∀ x k : Nat, Nat.ModEq (2 ^ 32) (w32 x * k) (x * k) :=
    fun x k => (Nat.mod_modEq x _).mul_right k
  have h1 := hmul (c + j + (2 ^ 32 - 2)) b.bpb.sectorsPerCluster
  have h2 := hmul (c + (2 ^ 32 - 2)) b.bpb.sectorsPerCluster
  have hsum : b.dataLba + (c + j + (2 ^ 32 - 2)) * b.bpb.sectorsPerCluster + i =
      b.dataLba + (c + (2 ^ 32 - 2)) * b.bpb.sectorsPerCluster + (j * b.bpb.sectorsPerCluster + i) := by ring
  calc w32 (b.dataLba + w32 (c + j + (2 ^ 32 - 2)) * b.bpb.sectorsPerCluster + i)
      = w32 (b.dataLba + (c + j + (2 ^ 32 - 2)) * b.bpb.sectorsPerCluster + i) :=
        (h1.add_left b.dataLba).add_right i
    _ = w32 (b.dataLba + (c + (2 ^ 32 - 2)) * b.bpb.sectorsPerCluster + (j * b.bpb.sectorsPerCluster + i)) := by
        rw [hsum]
    _ = w32 (b.dataLba + w32 (c + (2 ^ 32 - 2)) * b.bpb.sectorsPerCluster +
          (j * b.bpb.sectorsPerCluster + i)) :=
        ((h2.add_left b.dataLba).add_right _).symm

/-- The sectors of a contiguous piece are the same on both disks. -/
theorem disk_of_contiguous (hbu : SameFiles b u) {c last k : Nat} (hc : fat32InRange b c = true)
    (hlast : fat32InRange b last = true) (hle : c ≤ last)
    (hk : k < (last - c + 1) * b.bpb.sectorsPerCluster) :
    u.disk (w32 (fat32ClusterToLba b c + k)) = b.disk (w32 (fat32ClusterToLba b c + k)) := by
  have hspc : 0 < b.bpb.sectorsPerCluster := by
    rcases Nat.eq_zero_or_pos b.bpb.sectorsPerCluster with h0 | h0
    · simp [h0] at hk
    · exact h0
  have hj : k / b.bpb.sectorsPerCluster < last - c + 1 :=
    Nat.div_lt_of_lt_mul (by rwa [Nat.mul_comm] at hk)
  have hi := Nat.mod_lt k hspc
  have hrange : fat32InRange b (c + k / b.bpb.sectorsPerCluster) = true := by
    simp only [fat32InRange, Bool.and_eq_true, decide_eq_true_eq] at hc hlast ⊢
    generalize k / b.bpb.sectorsPerCluster = j at hj ⊢
    omega
  have hadd := clusterToLba_add (b := b) c (k / b.bpb.sectorsPerCluster) (k % b.bpb.sectorsPerCluster)
  rw [Nat.mul_comm, Nat.div_add_mod] at hadd
  rw [← hadd]
  exact hbu.data _ hrange _ (mem_clusterLbas hi)

/-- The sectors of a cluster from an offset on are read alike. -/
theorem readPartFrom_sim (hbu : SameFiles b u) {cluster : Nat} (hc : fat32InRange b cluster = true)
    (offset rounds sectorIndex bytesLeft : Nat) (dst : List UInt8) (h : Reading P b u s t) :
    SimAt (Reading P b u) (fat32ReadPartFrom cluster offset rounds sectorIndex bytesLeft dst)
      (fat32ReadPartFrom cluster offset rounds sectorIndex bytesLeft dst) s t := by
  induction rounds generalizing sectorIndex bytesLeft dst s t with
  | zero => exact .pure _ h
  | succ rounds ih =>
    unfold fat32ReadPartFrom
    refine .get_bind ?_
    rw [h.1.clusterToLba, h.2.clusterToLba, hbu.clusterToLba, h.1.bpb, h.2.bpb, hbu.bpb]
    refine .ite Iff.rfl (fun hlt => ?_) fun _ => .pure _ h
    have hsector : ∀ k, sectorIndex + k < b.bpb.sectorsPerCluster →
        u.disk (w32 (fat32ClusterToLba b cluster + sectorIndex + k)) =
          b.disk (w32 (fat32ClusterToLba b cluster + sectorIndex + k)) := by
      intro k hk
      rw [Nat.add_assoc]
      exact hbu.data cluster hc _ (mem_clusterLbas hk)
    refine .ite Iff.rfl (fun _ => ih _ _ _ h) fun _ => ?_
    refine .ite Iff.rfl (fun _ => ?_) fun _ => ?_
    · refine .bind (readSectors_sim _ (w32_lt _) (fun k hk => ?_) h) fun bytes s' t' h' =>
        ih _ _ _ h'
      rw [w32_w32_add]
      exact hsector k (by omega)
    · exact .bind (readSector_sim h (hsector 0 (by omega))) fun sector s' t' h' => ih _ _ _ h'

theorem advanceReadCache_sim (h : Reading P b u s t) (count cluster : Nat) :
    SimAt (Reading False b u) (change (fat32AdvanceReadCache count cluster))
      (change (fat32AdvanceReadCache count cluster)) s t :=
  ⟨rfl, h.1.readCache _ _ _ _ _, h.2.readCache _ _ _ _ _⟩

def readAtRest (spc lba cluster last offset bytesLeft : Nat) (dst : List UInt8) :
    Fat32M (Nat × Nat × List UInt8) :=
  if 1 < last - cluster + 1 then do
    let bytes ← readSectors lba ((last - cluster + 1) * spc)
    change (fat32AdvanceReadCache (last - cluster + 1 - 1) last)
    pure (last, bytesLeft - (last - cluster + 1) * spc * 512, dst ++ bytes)
  else do
    let (bytesLeft, dst) ← fat32ReadPartFrom cluster offset spc 0 bytesLeft dst
    pure (cluster, bytesLeft, dst)

/-- A round of the read at an offset is a probe and a read of what it has found. -/
theorem readAtRound_eq (cluster offset bytesLeft : Nat) (dst : List UInt8) (s : Fat32) :
    ∃ n, fat32ReadAtRound cluster offset bytesLeft dst s =
      ((if offset = 0 ∧ s.bpb.sectorsPerCluster * 512 ≤ bytesLeft then fat32ProbeContiguous n cluster
        else pure cluster) >>= fun last => readAtRest s.bpb.sectorsPerCluster (fat32ClusterToLba s cluster)
          cluster last offset bytesLeft dst) s ∧
      n = min (bytesLeft / (s.bpb.sectorsPerCluster * 512))
        (max (255 / s.bpb.sectorsPerCluster) 1) - 1 := by
  refine ⟨_, ?_, rfl⟩
  unfold fat32ReadAtRound
  simp only [bind_apply, get_apply, Option.bind_some]
  split
  · rfl
  · rfl

/-- The read of a contiguous piece is the same. -/
theorem readAtRest_sim (hbu : SameFiles b u) {cluster last : Nat}
    (hc : fat32InRange b cluster = true) (hle : cluster ≤ last)
    (hlast : fat32InRange b last = true) (offset bytesLeft : Nat) (dst : List UInt8)
    (h : Reading False b u s t) : SimAt (Reading False b u)
      (readAtRest b.bpb.sectorsPerCluster (fat32ClusterToLba b cluster) cluster last offset bytesLeft dst)
      (readAtRest b.bpb.sectorsPerCluster (fat32ClusterToLba b cluster) cluster last offset bytesLeft dst) s t := by
  unfold readAtRest
  refine .ite Iff.rfl (fun _ => ?_) fun _ => ?_
  · refine .bind (readSectors_sim _ (w32_lt _) (fun k hk => ?_) h) fun bytes s' t' h' => ?_
    · exact disk_of_contiguous hbu hc hlast hle hk
    · exact .bind (advanceReadCache_sim h' _ _) fun _ s'' t'' h'' => .pure _ h''
  · exact .bind (readPartFrom_sim hbu hc _ _ _ _ _ h) fun r s' t' h' => .pure _ h'

/-- The cluster that the read of a piece ends in is one of the volume. -/
theorem readAtRest_answer {spc lba cluster last offset bytesLeft : Nat} {dst : List UInt8}
    {r : Nat × Nat × List UInt8} {s' : Fat32} (hc : fat32InRange b cluster = true)
    (hlast : fat32InRange b last = true)
    (hrun : readAtRest spc lba cluster last offset bytesLeft dst s = some (r, s')) :
    fat32InRange b r.1 = true := by
  unfold readAtRest at hrun
  split at hrun
  · simp only [bind_apply, Option.bind_eq_some_iff] at hrun
    obtain ⟨⟨bytes, s₁⟩, -, ⟨⟨⟩, s₂⟩, -, hpure⟩ := hrun
    obtain ⟨rfl, -⟩ := Prod.mk.inj (Option.some.inj hpure)
    exact hlast
  · simp only [bind_apply, Option.bind_eq_some_iff] at hrun
    obtain ⟨⟨p, s₁⟩, -, hpure⟩ := hrun
    obtain ⟨rfl, -⟩ := Prod.mk.inj (Option.some.inj hpure)
    exact hc

theorem probeIf_answer (hin : ChainsInside b) {c : Prop} [Decidable c] {n cluster last : Nat}
    {s' : Fat32} (hc : fat32InRange b cluster = true) (h : Upto P b s)
    (hrun : (if c then fat32ProbeContiguous n cluster else pure cluster) s = some (last, s')) :
    cluster ≤ last ∧ fat32InRange b last = true := by
  by_cases hcond : c
  · rw [if_pos hcond] at hrun
    exact probeContiguous_answer hin _ hc h hrun
  · rw [if_neg hcond] at hrun
    obtain ⟨rfl, -⟩ := Prod.mk.inj (Option.some.inj hrun)
    exact ⟨le_rfl, hc⟩

/-- A round of the read at an offset is the same. -/
theorem readAtRound_sim (hbu : SameFiles b u) (hin : ChainsInside b) {cluster : Nat}
    (hc : fat32InRange b cluster = true) (offset bytesLeft : Nat) (dst : List UInt8)
    (h : Reading False b u s t) :
    SimAt (Reading False b u) (fat32ReadAtRound cluster offset bytesLeft dst)
      (fat32ReadAtRound cluster offset bytesLeft dst) s t := by
  obtain ⟨n, hs, hn⟩ := readAtRound_eq cluster offset bytesLeft dst s
  obtain ⟨n', ht, hn'⟩ := readAtRound_eq cluster offset bytesLeft dst t
  rw [h.1.bpb] at hn
  rw [h.2.bpb, hbu.bpb] at hn'
  rw [h.1.bpb, h.1.clusterToLba] at hs
  rw [h.2.bpb, hbu.bpb, h.2.clusterToLba, hbu.clusterToLba, hn', ← hn] at ht
  unfold SimAt
  rw [hs, ht]
  refine SimAt.bind_of (R := Reading False b u) (P := fun last => cluster ≤ last ∧ fat32InRange b last = true)
    ?_ (fun last s' hrun => probeIf_answer hin hc h.1 hrun) fun last s' t' hlast h' => ?_
  · exact .ite Iff.rfl (fun _ => probeContiguous_sim hbu hin _ hc h) fun _ => .pure _ h
  · exact readAtRest_sim hbu hc hlast.1 hlast.2 _ _ _ h'

/-- A round ends in a cluster of the volume. -/
theorem readAtRound_answer (hin : ChainsInside b) {cluster offset bytesLeft : Nat}
    {dst : List UInt8} {r : Nat × Nat × List UInt8} {s' : Fat32}
    (hc : fat32InRange b cluster = true) (h : Upto P b s)
    (hrun : fat32ReadAtRound cluster offset bytesLeft dst s = some (r, s')) :
    fat32InRange b r.1 = true := by
  obtain ⟨n, heq, -⟩ := readAtRound_eq cluster offset bytesLeft dst s
  rw [heq, bind_apply, Option.bind_eq_some_iff] at hrun
  obtain ⟨⟨last, s₁⟩, hprobe, hrest⟩ := hrun
  exact readAtRest_answer hc (probeIf_answer hin hc h hprobe).2 hrest

/-- The rounds together are the same. -/
theorem readAtChain_sim (hbu : SameFiles b u) (hin : ChainsInside b)
    (fuel cluster offset bytesLeft : Nat) (dst : List UInt8) (h : Reading False b u s t) :
    SimAt (Reading False b u) (fat32ReadAtChain fuel cluster offset bytesLeft dst)
      (fat32ReadAtChain fuel cluster offset bytesLeft dst) s t := by
  induction fuel generalizing cluster offset bytesLeft dst s t with
  | zero => exact .none
  | succ fuel ih =>
    unfold fat32ReadAtChain
    refine .get_bind ?_
    rw [h.1.inRange, h.2.inRange, hbu.inRange]
    refine .ite Iff.rfl (fun hcond => ?_) fun _ => .pure _ h
    have hc := (Bool.and_eq_true_iff.mp hcond).1
    refine SimAt.bind_of (P := fun r => fat32InRange b r.1 = true)
      (readAtRound_sim hbu hin hc _ _ _ h)
      (fun r s' hrun => readAtRound_answer hin hc h.1 hrun) fun r s' t' hr h' => ?_
    refine .ite Iff.rfl (fun _ => .pure _ h') fun _ => ?_
    refine .bind (getFatEntry_sim hbu h' hr) fun next s'' t'' h'' => ?_
    refine .ite Iff.rfl (fun _ => .pure _ h'') fun _ => ?_
    exact .bind (advanceReadCache_sim h'' _ _) fun _ s₃ t₃ h₃ => ih _ _ _ _ h₃

def walkStart (s : Fat32) (path : List UInt8) (first target : Nat) : Nat × Nat :=
  match fat32ReadCacheHit s path first target with
  | some (cluster, index) => (cluster, target - index)
  | none => (first, target)

/-- From the cached place or from the first cluster, the walk comes to the same cluster. -/
theorem walkStart_on (h : Upto True b s) (path : List UInt8) (first target : Nat) :
    ∃ s', fat32WalkClusters (walkStart s path first target).2 (walkStart s path first target).1 s =
      some (walkLinks b target first, s') ∧ Upto True b s' := by
  unfold walkStart
  cases hhit : fat32ReadCacheHit s path first target with
  | none => exact walkClusters_on h target first
  | some p =>
    obtain ⟨cluster, index⟩ := p
    rw [← walkLinks_hit h hhit]
    exact walkClusters_on h (target - index) cluster

/-- The walk to the offset ends alike, whatever is in the read caches. -/
theorem walkStart_sim (hbu : SameFiles b u) (path : List UInt8) (first target : Nat)
    (h : Reading True b u s t) :
    SimAt (Reading True b u) (fat32WalkClusters (walkStart s path first target).2 (walkStart s path first target).1)
      (fat32WalkClusters (walkStart t path first target).2 (walkStart t path first target).1) s t := by
  obtain ⟨s', hs, hs'⟩ := walkStart_on h.1 path first target
  obtain ⟨t', ht, ht'⟩ := walkStart_on h.2 path first target
  unfold SimAt
  rw [hs, ht, hbu.walkLinks_eq]
  exact ⟨rfl, hs', ht'⟩

/-- The read at an offset is the same. -/
theorem readAt_sim (hbu : SameFiles b u) (hin : ChainsInside b) (fuel : Nat) (path : List UInt8)
    (first offset count : Nat) (h : Reading True b u s t) :
    SimAt (Reading False b u) (fat32ReadAt fuel path first offset count)
      (fat32ReadAt fuel path first offset count) s t := by
  unfold fat32ReadAt
  refine .get_bind ?_
  rw [h.1.bpb, h.2.bpb, hbu.bpb]
  refine SimAt.bind (walkStart_sim hbu path first _ h) fun r s₁ t₁ h₁ => ?_
  cases r with
  | none => exact .pure _ ⟨h₁.1.weaken, h₁.2.weaken⟩
  | some cluster =>
    refine SimAt.bind (R := Reading False b u) ⟨rfl, h₁.1.readCache _ _ _ _ _,
      h₁.2.readCache _ _ _ _ _⟩
      fun _ s₂ t₂ h₂ => readAtChain_sim hbu hin _ _ _ _ _ h₂

/-- `fat32_read_file_at` returns the same on volumes with the same files. -/
theorem readFileAt_sim (hbu : SameFiles b u) (hin : ChainsInside b) (fuel : Nat) (path : List UInt8)
    (offset bufferSize : Nat) (h : Reading True b u s t) :
    SimAt (Reading False b u) (fat32ReadFileAt fuel path offset bufferSize)
      (fat32ReadFileAt fuel path offset bufferSize) s t := by
  have hweak : ∀ {s t : Fat32}, Reading True b u s t → Reading False b u s t :=
    fun h => ⟨h.1.weaken, h.2.weaken⟩
  unfold fat32ReadFileAt
  refine .get_bind ?_
  rw [h.1.ready, h.2.ready, hbu.ready]
  refine .ite Iff.rfl (fun _ => .pure _ (hweak h)) fun _ => ?_
  refine .bind (resolvePath_sim hbu fuel path h) fun r s' t' h' => ?_
  cases r with
  | none => exact .pure _ (hweak h')
  | some p =>
    refine .ite Iff.rfl (fun _ => .pure _ (hweak h')) fun _ => ?_
    refine .ite Iff.rfl (fun _ => .pure _ (hweak h')) fun _ => ?_
    exact .bind (readAt_sim hbu hin _ _ _ _ _ h') fun dst s'' t'' h'' => .pure _ h''

/-- Every read returns the same on two volumes with the same files, whatever their caches hold. -/
theorem fat32Read_eq (hbu : SameFiles b u) (hin : ChainsInside b) (hb : CacheOk b) (hu : CacheOk u)
    (hrb : ReadCacheOk b b) (hru : ReadCacheOk u u) (fuel : Nat) (op : ReadOp) :
    (fat32Read fuel op b).map Prod.fst = (fat32Read fuel op u).map Prod.fst := by
  have h : Reading True b u b u := ⟨.refl hb fun _ => hrb, .refl hu fun _ => hru⟩
  cases op with
  | readFile path bufferSize => exact (readFile_sim hbu fuel path bufferSize h).map_fst
  | readFileAt path offset bufferSize =>
    exact (readFileAt_sim hbu hin fuel path offset bufferSize h).map_fst

end

end Monios.Analysis
