import Monios.Model.Fat32.File

/-!
# Sector addresses and sector writes

Addresses are sums modulo `2 ^ 32`: two sectors of a volume are the same only when they are at the
same distance from its start. A write changes the sector it names.
-/

set_option autoImplicit false

namespace Monios.Analysis

open Monios.Library Monios.Model

/-- A value of 32 bits. -/
theorem w32_lt (n : Nat) : w32 n < 2 ^ 32 := Nat.mod_lt _ (by decide)

/-- Wrapping twice is wrapping once. -/
@[simp] theorem w32_w32_add (a b : Nat) : w32 (w32 a + b) = w32 (a + b) := by
  unfold w32
  omega

/-- Different offsets stay different under the wrap. -/
theorem w32_add_ne {v a b : Nat} (ha : a < 2 ^ 32) (hb : b < 2 ^ 32) (h : a ≠ b) :
    w32 (v + a) ≠ w32 (v + b) := by
  unfold w32
  omega

/-- A write leaves every other sector alone. -/
theorem ataWriteSector_of_ne {s : Fat32} {lba x : Nat} {buffer : Sector} (h : x ≠ lba) :
    (ataWriteSector s lba buffer).disk x = s.disk x :=
  Function.update_of_ne h _ _

/-- A write is read back. -/
theorem ataWriteSector_self (s : Fat32) (lba : Nat) (buffer : Sector) :
    (ataWriteSector s lba buffer).disk lba = buffer :=
  Function.update_self _ _ _

/-- A write of several sectors leaves the others alone. -/
theorem ataWriteSectors_of_ne (s : Fat32) (lba : Nat) (buffers : List Sector) {x : Nat}
    (h : ∀ k, k < buffers.length → x ≠ w32 (lba + k)) (hlba : lba < 2 ^ 32) :
    (ataWriteSectors s lba buffers).disk x = s.disk x := by
  induction buffers generalizing s lba with
  | nil => rfl
  | cons b rest ih =>
    have h0 : x ≠ lba := by
      have := h 0 (by simp)
      unfold w32 at this
      omega
    unfold ataWriteSectors
    rw [ih _ _ ?_ (w32_lt _)]
    · exact Function.update_of_ne h0 _ _
    · intro k hk
      have := h (k + 1) (by simpa using hk)
      rw [w32_w32_add]
      rwa [Nat.add_assoc, Nat.add_comm 1 k]

/-- Sectors that are cleared read as zero. -/
theorem ataWriteSectors_zero (s : Fat32) (lba n : Nat) {x : Nat} (hlba : lba < 2 ^ 32)
    (h : s.disk x = Block.zero ∨ ∃ k, k < n ∧ x = w32 (lba + k)) :
    (ataWriteSectors s lba (List.replicate n Block.zero)).disk x = Block.zero := by
  induction n generalizing s lba with
  | zero =>
    rcases h with h | ⟨k, hk, -⟩
    · exact h
    · omega
  | succ n ih =>
    rw [List.replicate_succ]
    unfold ataWriteSectors
    apply ih _ _ (w32_lt _)
    by_cases hx : x = lba
    · left
      subst hx
      exact Function.update_self _ _ _
    · rcases h with h | ⟨k, hk, heq⟩
      · left
        rw [← h]
        exact Function.update_of_ne hx _ _
      · right
        have hk0 : k ≠ 0 := by
          rintro rfl
          unfold w32 at heq
          omega
        refine ⟨k - 1, by omega, ?_⟩
        rw [heq, w32_w32_add]
        congr 1
        omega

end Monios.Analysis

/-!
# The directory tree of a FAT32 volume

What the sectors of a volume mean: the chain of a cluster, the entries of a directory and the
clusters that all files and directories below it use. `TreeEntries` follows the tree and collects
these clusters, so that a volume is consistent when the list it collects has no cluster twice and
misses none that is in use.
-/

namespace Monios.Analysis

open Monios.Library Monios.Model

def fatEntry (s : Fat32) (cluster : Nat) : Nat :=
  fat32Masked ((s.disk (fat32FatSector s 0 cluster)).u32 (fat32FatOffset cluster))

/-- `FatChain s c l`: from `c` the links of the FAT lead through the clusters `l`, all of them
clusters of the volume, to an end mark. -/
inductive FatChain (s : Fat32) : Nat → List Nat → Prop
  | last {c : Nat} (hc : fat32InRange s c = true) (hend : fat32IsEndCluster (fatEntry s c) = true) : FatChain s c [c]
  | link {c : Nat} {l : List Nat} (hc : fat32InRange s c = true)
      (hend : fat32IsEndCluster (fatEntry s c) = false) (rest : FatChain s (fatEntry s c) l) :
      FatChain s c (c :: l)

def clusterLbas (s : Fat32) (cluster : Nat) : List Nat :=
  (List.range s.bpb.sectorsPerCluster).map fun i => w32 (fat32ClusterToLba s cluster + i)

def sectorEntries (sector : Sector) : List Fat32DirEntry :=
  (List.range 16).map fun i => dirEntryAt sector (32 * i)

/-- An entry that stands for a file or a directory: not deleted, not a volume label or a part
of a long name, and neither `.` nor `..`. -/
def isLive (e : Fat32DirEntry) : Bool := e.name0 != 0xE5 && !e.isVolumeId && !e.isDot

def liveEntries (entries : List Fat32DirEntry) : List Fat32DirEntry :=
  (entries.takeWhile (fun e => e.name0 != 0x00)).filter isLive

def dirEntries (s : Fat32) (chain : List Nat) : List Fat32DirEntry :=
  liveEntries ((chain.flatMap (clusterLbas s)).flatMap fun lba => sectorEntries (s.disk lba))

/-- `TreeEntries s P k es l`: the chains of the entries `es` and of everything below them, at
most `k` directories deep, are the clusters `l`, and all these entries satisfy `P`. -/
inductive TreeEntries (s : Fat32) (P : Fat32DirEntry → Prop) : Nat → List Fat32DirEntry → List Nat → Prop
  | nil (k : Nat) : TreeEntries s P k [] []
  | empty {k : Nat} {e : Fat32DirEntry} {es : List Fat32DirEntry} {l : List Nat} (hp : P e)
      (h0 : e.cluster = 0) (rest : TreeEntries s P k es l) : TreeEntries s P k (e :: es) l
  | file {k : Nat} {e : Fat32DirEntry} {es : List Fat32DirEntry} {chain l : List Nat} (hp : P e)
      (hfile : e.isDirectory = false) (hchain : FatChain s e.cluster chain)
      (rest : TreeEntries s P k es l) : TreeEntries s P k (e :: es) (chain ++ l)
  | dir {k : Nat} {e : Fat32DirEntry} {es : List Fat32DirEntry} {chain below l : List Nat} (hp : P e)
      (hdir : e.isDirectory = true) (hchain : FatChain s e.cluster chain)
      (hbelow : TreeEntries s P k (dirEntries s chain) below) (rest : TreeEntries s P (k + 1) es l) :
      TreeEntries s P (k + 1) (e :: es) (chain ++ (below ++ l))

structure TreeClusters (s : Fat32) (P : Fat32DirEntry → Prop) (k : Nat) (root below : List Nat) : Prop where
  rootChain : FatChain s s.bpb.rootCluster root
  entries : TreeEntries s P k (dirEntries s root) below
  nodup : (root ++ below).Nodup

/-- A chain starts inside the volume. -/
theorem FatChain.inRange {s : Fat32} {c : Nat} {l : List Nat} (h : FatChain s c l) :
    fat32InRange s c = true := by
  cases h with
  | last hc _ => exact hc
  | link hc _ _ => exact hc

/-- No cluster of a chain is free. -/
theorem FatChain.not_free {s : Fat32} {c : Nat} {l : List Nat} (h : FatChain s c l) :
    ∀ d ∈ l, fatEntry s d ≠ fat32ClusterFree := by
  induction h with
  | last _ hend =>
    intro d hd hfree
    rw [List.mem_singleton] at hd
    rw [← hd, hfree] at hend
    exact absurd hend (by decide)
  | link _ _ rest ih =>
    intro d hd hfree
    rcases List.mem_cons.mp hd with rfl | hd
    · have hrange := rest.inRange
      rw [hfree] at hrange
      simp [fat32InRange, fat32ClusterFree] at hrange
    · exact ih d hd hfree

end Monios.Analysis

/-!
# Reading the FAT through the cache

As long as the one-sector cache agrees with the disk, `fat32_get_fat_entry` answers what stands in
the first FAT and changes nothing but the cache. From this follows what the walk along the chain of
a directory finds.
-/

namespace Monios.Analysis

open Monios.Library Monios.Model

section

variable {α β : Type}

/-- Two steps, run one after the other. -/
@[simp] theorem bind_apply (m : Fat32M α) (f : α → Fat32M β) (s : Fat32) :
    (m >>= f) s = (m s).bind fun p => f p.1 p.2 := rfl

/-- A value, run. -/
@[simp] theorem pure_apply (a : α) (s : Fat32) : (pure a : Fat32M α) s = some (a, s) := rfl

/-- The state, read. -/
@[simp] theorem get_apply (s : Fat32) : (get : Fat32M Fat32) s = some (s, s) := rfl

/-- The state, changed. -/
@[simp] theorem change_apply (f : Fat32 → Fat32) (s : Fat32) : change f s = some ((), f s) := rfl

/-- A sector, read. -/
@[simp] theorem readSector_apply (lba : Nat) (s : Fat32) :
    readSector lba s = some (s.disk lba, s) := rfl

end

def CacheOk (s : Fat32) : Prop :=
  ∀ lba sector, s.fatCache = some (lba, sector) → sector = s.disk lba

def withCache (t : Fat32) (cache : Option (Nat × Sector)) : Fat32 := { t with fatCache := cache }

/-- The state `t` differs from `s` in the cache and in the marks of a check only, and its cache
agrees with the disk. -/
def OnVolume (s t : Fat32) : Prop :=
  (∃ cache mark ref, t = { s with fatCache := cache, chkMark := mark, chkRef := ref }) ∧ CacheOk t

/-- A state is on its own volume. -/
theorem OnVolume.refl {s : Fat32} (h : CacheOk s) : OnVolume s s := ⟨⟨_, _, _, rfl⟩, h⟩

section

variable {s t : Fat32}

/-- The disk is the same. -/
theorem OnVolume.disk (h : OnVolume s t) : t.disk = s.disk := by
  obtain ⟨⟨cache, mark, ref, rfl⟩, -⟩ := h
  rfl

/-- The geometry is the same. -/
theorem OnVolume.bpb (h : OnVolume s t) : t.bpb = s.bpb := by
  obtain ⟨⟨cache, mark, ref, rfl⟩, -⟩ := h
  rfl

/-- The number of clusters is the same. -/
theorem OnVolume.clusterCount (h : OnVolume s t) : t.clusterCount = s.clusterCount := by
  obtain ⟨⟨cache, mark, ref, rfl⟩, -⟩ := h
  rfl

/-- The flag of the mount is the same. -/
theorem OnVolume.ready (h : OnVolume s t) : t.ready = s.ready := by
  obtain ⟨⟨cache, mark, ref, rfl⟩, -⟩ := h
  rfl

/-- The table is the same. -/
theorem OnVolume.fatEntry (h : OnVolume s t) (c : Nat) : fatEntry t c = fatEntry s c := by
  obtain ⟨⟨cache, mark, ref, rfl⟩, -⟩ := h
  rfl

/-- The range of the clusters is the same. -/
theorem OnVolume.inRange (h : OnVolume s t) (c : Nat) : fat32InRange t c = fat32InRange s c := by
  obtain ⟨⟨cache, mark, ref, rfl⟩, -⟩ := h
  rfl

/-- Clusters lie where they did. -/
theorem OnVolume.clusterToLba (h : OnVolume s t) (c : Nat) :
    fat32ClusterToLba t c = fat32ClusterToLba s c := by
  obtain ⟨⟨cache, mark, ref, rfl⟩, -⟩ := h
  rfl

/-- Reading an entry of the table changes the cached sector only. -/
theorem getFatEntry_on (h : OnVolume s t) (c : Nat) :
    ∃ cache, fat32GetFatEntry c t = some (fatEntry s c, withCache t cache) ∧
      OnVolume s (withCache t cache) := by
  obtain ⟨⟨cache, mark, ref, rfl⟩, hcache⟩ := h
  refine ⟨some (fat32FatSector s 0 c, s.disk (fat32FatSector s 0 c)), ?_, ⟨_, _, _, rfl⟩, ?_⟩
  · cases cache with
    | none => rfl
    | some entry =>
      obtain ⟨lba, sector⟩ := entry
      have hsector : sector = s.disk lba := hcache lba sector rfl
      have hread : (if lba = fat32FatSector s 0 c then sector else s.disk (fat32FatSector s 0 c)) =
          s.disk (fat32FatSector s 0 c) := by
        split
        · next hlba => rw [hsector, hlba]
        · rfl
      have hrun : fat32GetFatEntry c { s with fatCache := some (lba, sector), chkMark := mark, chkRef := ref } =
          some (fat32Masked ((if lba = fat32FatSector s 0 c then sector else
            s.disk (fat32FatSector s 0 c)).u32 (fat32FatOffset c)),
            withCache { s with fatCache := some (lba, sector), chkMark := mark, chkRef := ref }
              (some (fat32FatSector s 0 c, if lba = fat32FatSector s 0 c then sector else
                s.disk (fat32FatSector s 0 c)))) := rfl
      rw [hrun, hread]
      rfl
  · intro lba sector hlba
    obtain ⟨rfl, rfl⟩ := Prod.mk.inj (Option.some.inj hlba)
    rfl

/-- The second cached sector replaces the first. -/
@[simp] theorem withCache_withCache (t : Fat32) (a b : Option (Nat × Sector)) :
    withCache (withCache t a) b = withCache t b := rfl

/-- `LinkChain s c l`: from `c` the links of the FAT lead through the clusters `l` and then to
something that is not a cluster of the volume: an end mark, but also a free entry or a number
that is too large. -/
inductive LinkChain (s : Fat32) : Nat → List Nat → Prop
  | stop {c : Nat} (hc : fat32InRange s c = false) : LinkChain s c []
  | link {c : Nat} {l : List Nat} (hc : fat32InRange s c = true) (rest : LinkChain s (fatEntry s c) l) :
      LinkChain s c (c :: l)

def SmallVolume (s : Fat32) : Prop := s.clusterCount + 2 ≤ fat32ClusterBad

/-- On a small volume an end mark is no cluster. -/
theorem not_inRange_of_isEnd (hsmall : SmallVolume s) {c : Nat} (h : fat32IsEndCluster c = true) :
    fat32InRange s c = false := by
  unfold SmallVolume fat32ClusterBad at hsmall
  have hend : 0x0FFFFFF8 ≤ c % 2 ^ 28 := of_decide_eq_true (Bool.and_eq_true_iff.mp h).1
  have hc : ¬ c < s.clusterCount + 2 := by
    have := Nat.mod_le c (2 ^ 28)
    omega
  simp [fat32InRange, hc]

/-- On a small volume a chain of the table is a chain of links. -/
theorem FatChain.linkChain (hsmall : SmallVolume s) {c : Nat} {l : List Nat} (h : FatChain s c l) :
    LinkChain s c l := by
  induction h with
  | last hc hend => exact .link hc (.stop (not_inRange_of_isEnd hsmall hend))
  | link hc _ _ ih => exact .link hc ih

/-- Every cluster of a chain is inside the volume. -/
theorem LinkChain.inRange {c : Nat} {l : List Nat} (h : LinkChain s c l) :
    ∀ d ∈ l, fat32InRange s d = true := by
  induction h with
  | stop _ => simp
  | link hc _ ih => exact List.forall_mem_cons.mpr ⟨hc, ih⟩

/-- A cluster starts one chain. -/
theorem LinkChain.unique {c : Nat} {l m : List Nat} (h : LinkChain s c l) (h' : LinkChain s c m) :
    l = m := by
  induction h generalizing m with
  | stop hc =>
    cases h' with
    | stop _ => rfl
    | link hc' _ => exact absurd (hc.symm.trans hc') (by decide)
  | link hc _ ih =>
    cases h' with
    | stop hc' => exact absurd (hc'.symm.trans hc) (by decide)
    | link _ rest' => rw [ih rest']

/-- Every cluster of a chain starts a chain of its own. -/
theorem LinkChain.exists_suffix {c d : Nat} {l : List Nat} (h : LinkChain s c l) (hd : d ∈ l) :
    ∃ m, LinkChain s d m ∧ m.length ≤ l.length := by
  induction h with
  | stop _ => simp at hd
  | @link c l hc rest ih =>
    rcases List.mem_cons.mp hd with rfl | hd
    · exact ⟨_, .link hc rest, le_rfl⟩
    · obtain ⟨m, hm, hlen⟩ := ih hd
      exact ⟨m, hm, hlen.trans (by simp)⟩

/-- No cluster comes twice in a chain. -/
theorem LinkChain.nodup {c : Nat} {l : List Nat} (h : LinkChain s c l) : l.Nodup := by
  induction h with
  | stop _ => exact List.nodup_nil
  | @link c l hc rest ih =>
    refine List.nodup_cons.mpr ⟨?_, ih⟩
    intro hmem
    obtain ⟨m, hm, hlen⟩ := rest.exists_suffix hmem
    have hwhole := hm.unique (.link hc rest)
    rw [hwhole, List.length_cons] at hlen
    omega

/-- A chain has no more clusters than the volume. -/
theorem LinkChain.length_le {c : Nat} {l : List Nat} (h : LinkChain s c l) :
    l.length ≤ s.clusterCount := by
  have hsub : l ⊆ List.range' 2 s.clusterCount := by
    intro d hd
    have hr := h.inRange d hd
    simp only [fat32InRange, Bool.and_eq_true, decide_eq_true_eq] at hr
    rw [List.mem_range'_1]
    omega
  simpa using (List.subperm_of_subset h.nodup hsub).length_le

def chainLbas (s : Fat32) (chain : List Nat) : List Nat := chain.flatMap (clusterLbas s)

/-- A cluster has as many sectors as the geometry says. -/
theorem length_clusterLbas (c : Nat) : (clusterLbas s c).length = s.bpb.sectorsPerCluster := by
  simp [clusterLbas]

/-- The sectors of a chain, counted. -/
theorem length_chainLbas (chain : List Nat) :
    (chainLbas s chain).length = chain.length * s.bpb.sectorsPerCluster := by
  induction chain with
  | nil => simp [chainLbas]
  | cons c l ih =>
    unfold chainLbas at ih ⊢
    rw [List.flatMap_cons, List.length_append, ih, length_clusterLbas, List.length_cons,
      Nat.succ_mul]
    exact Nat.add_comm _ _

end

end Monios.Analysis
