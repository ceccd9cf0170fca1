import Monios.Analysis.FatContents
import Monios.Analysis.FatCopies

/-!
# Reads of parts of files and of whole files

`fat32_read_file_at` answers with the part of the bytes that `fat32_read_file` reads, in every state
that reads, writes and deletions lead to (`readsPart_of_runWhile`). The read cache is the reason to
look at runs: a read leaves the position of its last cluster behind, and every call that changes the
volume drops it (`accessStep_readable`).
-/

set_option autoImplicit false

namespace Monios.Analysis

open Monios.Library Monios.Model
open Monios.Library.FileBytes (readAt length_readAt)

variable {b s t u : Fat32} {fuel : Nat} {path : List UInt8}

structure Readable (fuel : Nat) (s : Fat32) : Prop where
  layout : FatLayout s
  work : AtWork s s
  cache : ReadCacheOk s s
  ready : s.ready = true
  fuel : s.clusterCount < fuel

theorem OnFiles.walkLinks (h : OnFiles b s) (n c : Nat) : walkLinks s n c = walkLinks b n c := by
  induction n generalizing c with
  | zero => rfl
  | succ n ih =>
    have hentry : fatEntry s c = fatEntry b c := by
      rw [h.work.fatEntry, h.disk]
      rfl
    unfold Monios.Analysis.walkLinks
    rw [h.work.inRange, hentry, ih]

theorem AtWork.self (h : AtWork b s) : AtWork s s :=
  ⟨rfl, rfl, rfl, rfl, rfl, rfl, rfl, by rw [h.fatLba, h.bpb]; exact h.cache⟩

namespace Readable

theorem of_work (h : Readable fuel s) (hwork : AtWork s t) (hready : t.ready = true)
    (hcache : ReadCacheOk t t) :
    Readable fuel t :=
  ⟨hwork.layout h.layout, hwork.self, hcache, hready, by rw [hwork.clusterCount]; exact h.fuel⟩

theorem onFiles (h : Readable fuel s) (hl : Looks s s t) : OnFiles s t :=
  OnFiles.looks ⟨h.work, rfl, rfl⟩ hl

theorem looks (h : Readable fuel s) (hl : Looks s s t) : Readable fuel t := by
  have hfiles := h.onFiles hl
  have hcache := h.cache
  have hready := h.ready
  obtain ⟨hwork, cache, rfl⟩ := hl
  exact h.of_work hwork hready fun hvalid => (hfiles.walkLinks _ _).trans (hcache hvalid)

theorem performed (h : Readable fuel s) (hp : Performed s s t) : Readable fuel t := by
  obtain hl | hc := hp
  · exact h.looks hl
  · have hwork := hc.work
    have hready := h.ready
    obtain ⟨disk, trace, cache, next, seq, rfl⟩ := hc.rest
    exact h.of_work hwork hready fun hvalid => Bool.noConfusion hvalid

theorem positioned (h : Readable fuel s) {first p : Nat} {l : List Nat}
    (hchain : FatChain s first l) (hp : Positioned s first l p t) : Readable fuel t := by
  refine h.of_work hp.files.work (hp.files.ready.trans h.ready) fun _ => ?_
  rw [hp.files.walkLinks, hp.start, hp.index, hchain.walkLinks_eq]
  exact hp.cluster

end Readable

theorem caches_of_fat32Init {hint : Int} {m : Fat32} (h : fat32Init hint m = (true, s)) :
    s.fatCache = none ∧ s.readCacheValid = false ∧ s.ready = true := by
  unfold fat32Init at h
  dsimp only at h
  split at h
  · cases h
  · split at h
    · cases h
    · obtain rfl := (Prod.mk.inj h).2
      exact ⟨rfl, rfl, rfl⟩

theorem readable_of_fat32Init {hint : Int} {m : Fat32} (h : fat32Init hint m = (true, s))
    (hlayout : FatLayout s) (hfuel : s.clusterCount < fuel) : Readable fuel s := by
  obtain ⟨hcache, hvalid, hready⟩ := caches_of_fat32Init h
  refine ⟨hlayout, ⟨rfl, rfl, rfl, rfl, rfl, rfl, rfl, ?_⟩, ?_, hready, hfuel⟩
  · rw [hcache]
    rintro _ _ ⟨⟩
  · intro hv
    exact absurd (hv.symm.trans hvalid) (by decide)

def CoveredEntry (s : Fat32) (e : Fat32DirEntry) : Prop :=
  e.fileSize = 0 ∨ ∃ l, FatChain s e.cluster l ∧ e.fileSize ≤ 512 * (l.length * s.bpb.sectorsPerCluster)

/-- `fat32_read_file_at` returns the part at `o` of what `fat32_read_file` reads: as many bytes as
the file has there, but not more than `n`. -/
def ReadsPart (fuel : Nat) (path : List UInt8) (o n : Nat) (s : Fat32) : Prop :=
  ∀ dir slot u, fat32ResolvePath fuel path s = some (some (dir, slot), u) → slot.entry.isDirectory = false →
    ∃ whole, whole.length = slot.entry.fileSize ∧
      (∀ bufferSize, slot.entry.fileSize ≤ bufferSize → Returns (fat32ReadFile fuel path bufferSize) s fun r _ =>
        r = (int32 slot.entry.fileSize, whole)) ∧
      Returns (fat32ReadFileAt fuel path o n) s fun r _ =>
        r = (((min n (slot.entry.fileSize - o) : Nat) : Int), readAt whole o n)

theorem FatChain.lt_fuel {c : Nat} {l : List Nat} (hchain : FatChain s c l) (h : Readable fuel s) :
    l.length < fuel :=
  Nat.lt_of_le_of_lt (hchain.linkChain h.layout.small).length_le h.fuel

section

variable {dir : Fat32DirRef} {slot : Fat32DirSlot}

theorem readFile_whole (h : Readable fuel s)
    (hpath : fat32ResolvePath fuel path s = some (some (dir, slot), u))
    (hfile : slot.entry.isDirectory = false) {l : List Nat}
    (hchain : FatChain s slot.entry.cluster l) {bufferSize : Nat} (hroom : slot.entry.fileSize ≤
      bufferSize) : Returns (fat32ReadFile fuel path bufferSize) s fun r _ =>
      r = (int32 slot.entry.fileSize, (chainBytes s l).take slot.entry.fileSize) := by
  have hlooks := (resolvePath_looks h.layout h.work fuel path _ _ hpath).1
  refine .get_bind (.ite (fun hn => absurd hn (by simp [h.ready])) fun _ => .run_bind hpath ?_)
  refine .ite (fun hd => absurd (hfile.symm.trans hd) (by decide)) fun _ => ?_
  have hlt : l.length < 0 + fuel := by
    rw [Nat.zero_add]
    exact hchain.lt_fuel h
  have hfits : ([] : List UInt8).length + slot.entry.fileSize ≤ bufferSize := by
    rwa [List.length_nil, Nat.zero_add]
  refine .bind (readChain_returns h.layout hchain (h.onFiles hlooks) hchain.zero hlt hfits) fun r t ht => ?_
  subst ht
  exact .pure (by rw [Nat.zero_mul]; rfl)

theorem readFile_empty (h : Readable fuel s)
    (hpath : fat32ResolvePath fuel path s = some (some (dir, slot), u))
    (hfile : slot.entry.isDirectory = false) (hempty : slot.entry.fileSize = 0) (bufferSize : Nat) :
    Returns (fat32ReadFile fuel path bufferSize) s fun r _ => r =
      (int32 slot.entry.fileSize, []) := by
  refine .get_bind (.ite (fun hn => absurd hn (by simp [h.ready])) fun _ => .run_bind hpath ?_)
  refine .ite (fun hd => absurd (hfile.symm.trans hd) (by decide)) fun _ => ?_
  have hread : Returns (fat32ReadChain bufferSize fuel slot.entry.cluster slot.entry.fileSize []) u fun r _ => r = (false, []) := by
    obtain ⟨n, rfl⟩ := Nat.exists_eq_succ_of_ne_zero (Nat.ne_of_gt (Nat.zero_lt_of_lt h.fuel))
    exact .get_bind (.ite (fun hpos => absurd hpos (by simp [hempty])) fun _ => .pure rfl)
  refine .bind hread fun r t ht => ?_
  subst ht
  exact .pure rfl

theorem readFileAt_end (h : Readable fuel s)
    (hpath : fat32ResolvePath fuel path s = some (some (dir, slot), u))
    (hfile : slot.entry.isDirectory = false) {o n : Nat} (hend : slot.entry.fileSize ≤ o ∨ n = 0) :
    Returns (fat32ReadFileAt fuel path o n) s fun r t => r = (0, []) ∧ Readable fuel t := by
  have hlooks := (resolvePath_looks h.layout h.work fuel path _ _ hpath).1
  refine .get_bind (.ite (fun hn => absurd hn (by simp [h.ready])) fun _ => .run_bind hpath ?_)
  refine .ite (fun hd => absurd (hfile.symm.trans hd) (by decide)) fun _ => .ite
    (fun _ => .pure ⟨rfl, h.looks hlooks⟩) ?_
  exact fun hmore => absurd hend hmore

theorem readFileAt_part (h : Readable fuel s)
    (hpath : fat32ResolvePath fuel path s = some (some (dir, slot), u))
    (hfile : slot.entry.isDirectory = false) {l : List Nat}
    (hchain : FatChain s slot.entry.cluster l)
    (hcovered : slot.entry.fileSize ≤ 512 * (l.length * s.bpb.sectorsPerCluster)) {o n : Nat}
    (ho : o < slot.entry.fileSize) (hn : n ≠ 0)
    (hcount : min n (slot.entry.fileSize - o) < 2 ^ 31) :
    Returns (fat32ReadFileAt fuel path o n) s fun r t => r =
      (((min n (slot.entry.fileSize - o) : Nat) : Int),
      readAt ((chainBytes s l).take slot.entry.fileSize) o n) ∧ Readable fuel t := by
  have hlooks := (resolvePath_looks h.layout h.work fuel path _ _ hpath).1
  have hcached : ReadCacheOk s u := by
    have hcache := h.cache
    obtain ⟨-, cache, rfl⟩ := hlooks
    exact hcache
  have hfew : s.clusterCount + 2 ≤ fat32ClusterBad := h.layout.small
  unfold fat32ClusterBad at hfew
  have hlen := (hchain.linkChain h.layout.small).length_le
  refine .get_bind (.ite (fun hn => absurd hn (by simp [h.ready])) fun _ => .run_bind hpath ?_)
  refine .ite (fun hd => absurd (hfile.symm.trans hd) (by decide)) fun _ => .ite
    (fun hend => by omega) fun _ => ?_
  have hread := readAt_returns h.layout hchain (by omega) (h.onFiles hlooks) hcached (hchain.lt_fuel h)
    (Nat.lt_of_lt_of_le ho hcovered) path (min (slot.entry.fileSize - o) n)
  refine .bind hread fun r t ht => .pure ⟨?_, ?_⟩
  · obtain ⟨rfl, -⟩ := ht
    have hlength : (readAt (chainBytes s l) o (min (slot.entry.fileSize - o) n)).length =
        min n (slot.entry.fileSize - o) := by
      rw [length_readAt, length_chainBytes]
      omega
    refine Prod.ext ?_ ?_
    · show int32 _ = _
      rw [hlength]
      exact if_pos hcount
    · show ((chainBytes s l).drop o).take _ = (((chainBytes s l).take slot.entry.fileSize).drop o).take n
      rw [List.drop_take, List.take_take, Nat.min_comm]
  · obtain ⟨-, q, hq⟩ := ht
    exact h.positioned hchain hq

theorem readFileAt_covered (h : Readable fuel s)
    (hpath : fat32ResolvePath fuel path s = some (some (dir, slot), u))
    (hfile : slot.entry.isDirectory = false) (hcovered : CoveredEntry s slot.entry) {o n : Nat}
    (hcount : min n (slot.entry.fileSize - o) < 2 ^ 31) :
    ∃ whole, whole.length = slot.entry.fileSize ∧
      (∀ bufferSize, slot.entry.fileSize ≤ bufferSize →
        Returns (fat32ReadFile fuel path bufferSize) s fun r _ =>
        r = (int32 slot.entry.fileSize, whole)) ∧
        Returns (fat32ReadFileAt fuel path o n) s fun r t =>
        r = (((min n (slot.entry.fileSize - o) : Nat) : Int), readAt whole o n) ∧
        Readable fuel t := by
  obtain hempty | ⟨l, hchain, hroom⟩ := hcovered
  · refine ⟨[], hempty.symm, fun bufferSize _ => readFile_empty h hpath hfile hempty bufferSize, ?_⟩
    refine (readFileAt_end h hpath hfile (.inl (by omega))).mono fun r t ht => ⟨ht.1.trans ?_, ht.2⟩
    rw [hempty, Nat.zero_sub, Nat.min_zero]
    unfold readAt
    rw [List.drop_nil, List.take_nil]
    rfl
  · have hlength : ((chainBytes s l).take slot.entry.fileSize).length = slot.entry.fileSize := by
      rw [List.length_take, length_chainBytes]
      exact Nat.min_eq_left hroom
    refine ⟨_, hlength, fun bufferSize hfits => readFile_whole h hpath hfile hchain hfits, ?_⟩
    by_cases hinside : o < slot.entry.fileSize ∧ n ≠ 0
    · exact readFileAt_part h hpath hfile hchain hroom hinside.1 hinside.2 hcount
    · refine (readFileAt_end h hpath hfile (by omega)).mono fun r t ht => ⟨ht.1.trans ?_, ht.2⟩
      have hnone : min n (slot.entry.fileSize - o) = 0 := by omega
      have hpart : readAt ((chainBytes s l).take slot.entry.fileSize) o n = [] := by
        apply List.eq_nil_of_length_eq_zero
        rw [length_readAt, hlength, hnone]
      rw [hnone, hpart]
      rfl

end

inductive AccessOp
  | readFileAt (path : List UInt8) (offset bufferSize : Nat)
  | writeFile (path data : List UInt8)
  | delete (path : List UInt8)

def accessStep (fuel : Nat) (s : Fat32) : AccessOp → Option Fat32
  | .readFileAt path offset bufferSize =>
    (fat32ReadFileAt fuel path offset bufferSize s).map Prod.snd
  | .writeFile path data => (fat32WriteFile fuel path data s).map Prod.snd
  | .delete path => (fat32Delete fuel path s).map Prod.snd

/-- A file that is read has its clusters, and the count of the bytes is a number that the call can
return; what is written goes to a directory that can grow. -/
def ReadsCovered (fuel : Nat) (s : Fat32) : AccessOp → Prop
  | .readFileAt path offset bufferSize => ∀ dir slot u, fat32ResolvePath fuel path s =
    some (some (dir, slot), u) →
      slot.entry.isDirectory = false →
        CoveredEntry s slot.entry ∧ min bufferSize (slot.entry.fileSize - offset) < 2 ^ 31
  | .writeFile path _ => ParentInside s fuel path s
  | .delete _ => True

theorem readFileAt_readable (h : Readable fuel s) {o n : Nat}
    (hc : ReadsCovered fuel s (.readFileAt path o n)) :
    Ensures (fat32ReadFileAt fuel path o n) s fun _ t => Readable fuel t := by
  by_cases hfile : ∃ dir slot u, fat32ResolvePath fuel path s = some (some (dir, slot), u) ∧ slot.entry.isDirectory = false
  · obtain ⟨dir, slot, u, hpath, hfile⟩ := hfile
    obtain ⟨hcovered, hcount⟩ := hc dir slot u hpath hfile
    obtain ⟨-, -, -, r, t, hrun, -, ht⟩ := readFileAt_covered h hpath hfile hcovered hcount
    exact .of_run hrun ht
  · refine .get_bind (.ite (fun _ => .pure h) fun _ => ?_)
    refine .bind (P := fun r u => fat32ResolvePath fuel path s = some (r, u))
      (fun _ _ hrun => hrun) fun r u hpath => ?_
    have hresolved := h.looks (resolvePath_looks h.layout h.work fuel path _ _ hpath).1
    obtain _ | ⟨dir, slot⟩ := r
    · exact .pure hresolved
    · refine .ite (fun _ => .pure hresolved) fun hd => absurd ⟨dir, slot, u, hpath, ?_⟩ hfile
      exact Bool.eq_false_iff.mpr hd

theorem accessStep_readable {op : AccessOp} (hc : ReadsCovered fuel s op) (h : Readable fuel s)
    (hstep : accessStep fuel s op = some t) : Readable fuel t := by
  have hends : ∀ {α : Type} {m : Fat32M α}, Ensures m s (fun _ t => Readable fuel t) →
      (m s).map Prod.snd = some t →
      Readable fuel t := by
    intro α m hm hrun
    obtain ⟨⟨a, u⟩, hm', rfl⟩ := Option.map_eq_some_iff.mp hrun
    exact hm a u hm'
  cases op with
  | readFileAt path offset bufferSize => exact hends (readFileAt_readable h hc) hstep
  | writeFile path data =>
    exact hends ((writeFile_performed h.layout h.work hc data).mono fun _ _ ht => h.performed ht) hstep
  | delete path => exact hends ((delete_performed h.layout h.work path).mono fun _ _ ht => h.performed ht) hstep

/-- After a mount of a volume whose regions lie one behind the other, in every run whose calls meet
their conditions: a read of a part of a file returns that part of what a read of the whole file
returns. -/
theorem readsPart_of_runWhile (fuel : Nat) (hint : Int) (m s t : Fat32) (ops : List AccessOp)
    (path : List UInt8) (o n : Nat) (hinit : fat32Init hint m = (true, s)) (hlayout : FatLayout s)
    (hfuel : s.clusterCount < fuel) (hrun : RunWhile (accessStep fuel) (ReadsCovered fuel) s ops t)
    (hc : ReadsCovered fuel t (.readFileAt path o n)) :
    ReadsPart fuel path o n t := by
  have hstart : Readable fuel s := readable_of_fat32Init hinit hlayout hfuel
  have h : Readable fuel t := hrun.invariant (fun _ _ _ hc h hst => accessStep_readable hc h hst) hstart
  intro dir slot u hpath hfile
  obtain ⟨hcovered, hcount⟩ := hc dir slot u hpath hfile
  obtain ⟨whole, hlength, hwhole, hpart⟩ := readFileAt_covered h hpath hfile hcovered hcount
  exact ⟨whole, hlength, hwhole, hpart.mono fun _ _ hr => hr.1⟩

/-- A volume on which the calls can rely: its regions lie one behind the other, its copies of the
FAT agree, no cluster belongs to two files or directories, and every file has the clusters it needs.
-/
structure WellFormed (s : Fat32) : Prop where
  layout : FatLayout s
  agree : CopiesAgree s s.disk
  tree : ∃ k root below, TreeClusters s (fun e => e.isDirectory = false → CoveredEntry s e) k root below

def fullFat : Sector :=
  (((Block.zero.patch 8 (le32 0x0FFFFFFF)).patch 12 (le32 0x0FFFFFFF)).patch 16 (le32 3)).patch 20 (le32 0x0FFFFFF7)

def fullRoot : Sector := ((Block.zero.patch 0 (ascii "A          ")).patch 26 (le16 4)).patch 28 (le32 600)

def fullVolume : Fat32 := tinyVolume fullFat fullFat fullRoot

theorem fullVolume_init : fat32Init 0 (Fat32.unmounted (tinyDisk fullFat fullFat fullRoot)) = (true, fullVolume) :=
  Prod.ext (by decide) rfl

theorem fullVolume_chain : FatChain fullVolume (dirEntryAt fullRoot 0).cluster [4, 3] := by
  have hcluster : (dirEntryAt fullRoot 0).cluster = 4 := by decide
  have hentry : fatEntry fullVolume 4 = 3 := by decide
  have h3 : FatChain fullVolume 3 [3] := .last (by decide) (by decide)
  rw [hcluster]
  exact .link (by decide) (by rw [hentry]; decide) (by rw [hentry]; exact h3)

theorem fullVolume_wellFormed : WellFormed fullVolume where
  layout := ⟨by decide, by unfold SmallVolume; decide, by decide, by decide, by decide, by decide,
    fun hon => absurd hon (by decide)⟩
  agree := by
    intro k c hk hc
    have hall : ∀ k < 2, ∀ c < 6, copyEntry fullVolume fullVolume.disk k c =
        copyEntry fullVolume fullVolume.disk 0 c := by
      decide
    exact hall k hk c hc
  tree := by
    have hroot : FatChain fullVolume fullVolume.bpb.rootCluster [2] := .last (by decide) (by decide)
    have hentries : dirEntries fullVolume [2] = [dirEntryAt fullRoot 0] := by decide +kernel
    refine ⟨0, [2], [4, 3] ++ [], hroot, ?_, by decide⟩
    rw [hentries]
    exact .file (fun _ => .inr ⟨_, fullVolume_chain, by decide⟩) (by decide) fullVolume_chain
      (.nil 0)

/-- On the volume after the file is written anew, the file has its 600 bytes in the clusters 3 and
4. -/
def FileInClusters (t : Fat32) : Prop :=
  (fat32ResolvePath 10 (ascii "/A") t).map (fun r => r.1.map fun p => (p.2.entry.fileSize, p.2.entry.cluster)) =
      some (some (600, 3)) ∧
    t.clusterCount = 4 ∧ t.bpb.sectorsPerCluster = 1 ∧ fatEntry t 3 = 4 ∧ fat32IsEndCluster (fatEntry t 4) = true

instance (t : Fat32) : Decidable (FileInClusters t) := by
  unfold FileInClusters
  infer_instance

theorem FileInClusters.readsCovered {t : Fat32} (h : FileInClusters t) {o n : Nat}
    (hn : n < 2 ^ 31) :
    ReadsCovered 10 t (.readFileAt (ascii "/A") o n) := by
  intro dir slot u hpath _
  obtain ⟨hentry, hcount, hsectors, h3, h4⟩ := h
  rw [hpath] at hentry
  obtain ⟨hsize, hcluster⟩ := Prod.mk.inj (Option.some.inj (Option.some.inj hentry))
  have hinRange : ∀ c, 2 ≤ c → c < 6 → fat32InRange t c = true := by
    intro c hlow hhigh
    simp [fat32InRange, hcount, hlow, hhigh]
  have hchain : FatChain t 3 [3, 4] := by
    refine .link (hinRange 3 (by decide) (by decide)) (by rw [h3]; decide) ?_
    rw [h3]
    exact .last (hinRange 4 (by decide) (by decide)) h4
  dsimp only at hsize hcluster
  refine ⟨.inr ⟨[3, 4], by rw [hcluster]; exact hchain, by rw [hsize, hsectors]; decide⟩, by omega⟩

theorem fullVolume_parentInside : ParentInside fullVolume 10 (ascii "/A") fullVolume := by
  rintro u dir name t ⟨_, cache, rfl⟩ hrun
  have hdir : (fat32ResolveParent 10 (ascii "/A") (withCache fullVolume cache)).map
      (fun r => r.1.map fun p => p.1.startCluster) = some (some 2) := rfl
  rw [hrun] at hdir
  have hstart : dir.startCluster = 2 := Option.some.inj (Option.some.inj hdir)
  rw [hstart]
  refine ⟨fun c => c = 2, rfl, fun c hc => ?_⟩
  subst hc
  exact ⟨by decide, fun hend => absurd hend (by decide)⟩

/-- The file is written anew, then its first cluster is read: a read of the rest of it returns that
part of the file. -/
theorem readsPart_of_runWhile_full :
    ∃ t, Run (accessStep 10) fullVolume
        [.writeFile (ascii "/A") (List.replicate 600 0x58), .readFileAt (ascii "/A") 0 512] t ∧
      ReadsPart 10 (ascii "/A") 512 100 t := by
  have hsteps : ((accessStep 10 fullVolume (.writeFile (ascii "/A") (List.replicate 600 0x58))).bind fun s =>
      (accessStep 10 s (.readFileAt (ascii "/A") 0 512)).map fun t => decide (FileInClusters s ∧ FileInClusters t)) =
      some true := by
    decide +kernel
  obtain ⟨s, hwrite, hrest⟩ := Option.bind_eq_some_iff.mp hsteps
  obtain ⟨t, hread, hclusters⟩ := Option.map_eq_some_iff.mp hrest
  obtain ⟨hs, ht⟩ := of_decide_eq_true hclusters
  have hrun : RunWhile (accessStep 10) (ReadsCovered 10) fullVolume
      [.writeFile (ascii "/A") (List.replicate 600 0x58), .readFileAt (ascii "/A") 0 512] t :=
    .cons fullVolume_parentInside hwrite (.cons (hs.readsCovered (by decide)) hread (.nil t))
  exact ⟨t, .cons hwrite (.cons hread (.nil t)), readsPart_of_runWhile 10 0 _ fullVolume t _ (ascii "/A") 512 100 fullVolume_init
    fullVolume_wellFormed.layout (by decide) hrun (ht.readsCovered (by decide))⟩

/-- The file is to get a third cluster: the write fails after it has freed the two that the file
has, and a read of the second one returns nothing. -/
theorem readsPart_fails :
    ¬ ∀ (fuel : Nat) (hint : Int) (m s t : Fat32) (ops : List AccessOp) (path : List UInt8)
      (o n : Nat),
        fat32Init hint m = (true, s) → WellFormed s → s.clusterCount < fuel →
        Run (accessStep fuel) s ops t →
          ReadsPart fuel path o n t := by
  intro hall
  have hresult : (accessStep 10 fullVolume (.writeFile (ascii "/A") (List.replicate 1025 0x58))).map (fun t =>
      ((fat32ResolvePath 10 (ascii "/A") t).map fun r => r.1.map fun p => (p.2.entry.isDirectory, p.2.entry.fileSize),
        (fat32ReadFileAt 10 (ascii "/A") 512 100 t).map fun r => r.1.1)) =
      some (some (some (false, 600)), some 0) := by decide +kernel
  obtain ⟨t, hstep, hvalues⟩ := Option.map_eq_some_iff.mp hresult
  obtain ⟨hfile, hread⟩ := Prod.mk.inj hvalues
  obtain ⟨⟨r, u⟩, hpath, hentry⟩ := Option.map_eq_some_iff.mp hfile
  obtain ⟨⟨dir, slot⟩, rfl, hslot⟩ := Option.map_eq_some_iff.mp hentry
  obtain ⟨hdirectory, hsize⟩ := Prod.mk.inj hslot
  obtain ⟨whole, -, -, r, u', hrun, rfl⟩ := hall 10 0 _ fullVolume t _ (ascii "/A") 512 100 fullVolume_init fullVolume_wellFormed
    (by decide) (.cons hstep (.nil t)) dir slot u hpath hdirectory
  rw [hrun] at hread
  have hcount : ((min 100 (slot.entry.fileSize - 512) : Nat) : Int) = 0 := Option.some.inj hread
  rw [hsize] at hcount
  exact absurd hcount (by decide)

end Monios.Analysis
