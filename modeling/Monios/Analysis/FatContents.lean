import Monios.Analysis.FatCoherence
import Monios.Library.FileBytes

/-!
# The bytes of a FAT32 file

The contents of a file are the bytes of the sectors of its chain. `fat32_read_file` reads them from
the front (`readChain_returns`), and `fat32_read_file_at` from any place: the sector loop
(`readPartFrom_returns`), the transfer of several consecutive clusters (`probeContiguous_returns`)
and the walk from the position the read cache offers (`readAt_returns`) all read the same bytes.
-/

set_option autoImplicit false

namespace Monios.Analysis

open Monios.Library Monios.Model
open Monios.Library.FileBytes (readAt readAt_append readAt_of_end)

variable {b s s' t : Fat32} {l : List Nat} {first p c : Nat}

def sectorsBytes (disk : Nat → Sector) (lbas : List Nat) : List UInt8 :=
  lbas.flatMap fun x => (disk x).bytes 0 512

section

variable {disk : Nat → Sector}

theorem length_sectorsBytes (lbas : List Nat) :
    (sectorsBytes disk lbas).length = 512 * lbas.length := by
  induction lbas with
  | nil => rfl
  | cons x lbas ih =>
    unfold sectorsBytes at ih ⊢
    rw [List.flatMap_cons, List.length_append, ih, Block.length_bytes, List.length_cons]
    omega

theorem drop_sectorsBytes (lbas : List Nat) (j : Nat) :
    (sectorsBytes disk lbas).drop (512 * j) = sectorsBytes disk (lbas.drop j) := by
  induction lbas generalizing j with
  | nil => simp [sectorsBytes]
  | cons x lbas ih =>
    cases j with
    | zero => rfl
    | succ j =>
      have hcons : sectorsBytes disk (x :: lbas) = (disk x).bytes 0 512 ++ sectorsBytes disk lbas :=
        List.flatMap_cons
      rw [hcons, List.drop_succ_cons, ← ih j, show 512 * (j + 1) = ((disk x).bytes 0 512).length + 512 * j by simp; omega,
        ← List.drop_drop, List.drop_left]

theorem take_sectorsBytes (lbas : List Nat) (k : Nat) :
    (sectorsBytes disk lbas).take (512 * k) = sectorsBytes disk (lbas.take k) := by
  induction lbas generalizing k with
  | nil => simp [sectorsBytes]
  | cons x lbas ih =>
    cases k with
    | zero => rfl
    | succ k =>
      have hcons : ∀ m, sectorsBytes disk (x :: m) = (disk x).bytes 0 512 ++ sectorsBytes disk m :=
        fun m => List.flatMap_cons
      rw [hcons, List.take_succ_cons, hcons, ← ih k,
        show 512 * (k + 1) = ((disk x).bytes 0 512).length + 512 * k by simp; omega, List.take_length_add_append]

theorem readAt_bytes (sector : Sector) {o n : Nat} (h : o + n ≤ 512) :
    readAt (sector.bytes 0 512) o n = sector.bytes o n := by
  apply List.ext_getElem?
  intro i
  unfold readAt Block.bytes
  by_cases hi : i < n
  · rw [List.getElem?_take, if_pos hi, List.getElem?_drop]
    simp [hi, show o + i < 512 by omega]
  · rw [List.getElem?_take, if_neg hi]
    simp [hi]

theorem readAt_sector {lbas : List Nat} {j x o n : Nat} (hx : lbas[j]? = some x) (h : o + n ≤ 512) :
    readAt (sectorsBytes disk lbas) (512 * j + o) n = (disk x).bytes o n := by
  obtain ⟨hj, rfl⟩ := List.getElem?_eq_some_iff.mp hx
  have hcons : sectorsBytes disk (lbas.drop j) = (disk lbas[j]).bytes 0 512 ++
      sectorsBytes disk (lbas.drop (j + 1)) := by
    rw [List.drop_eq_getElem_cons hj]
    exact List.flatMap_cons
  rw [← readAt_bytes _ h]
  unfold readAt
  rw [← List.drop_drop, drop_sectorsBytes, hcons, List.drop_append_of_le_length (by simp; omega),
    List.take_append_of_le_length (by simp; omega)]

theorem readAt_sectors {lbas : List Nat} {j k lba : Nat}
    (h : ∀ i, i < k → lbas[j + i]? = some (w32 (lba + i))) :
    readAt (sectorsBytes disk lbas) (512 * j) (512 * k) =
      sectorsBytes disk ((List.range k).map fun i => w32 (lba + i)) := by
  unfold readAt
  rw [drop_sectorsBytes, take_sectorsBytes]
  congr 1
  apply List.ext_getElem?
  intro i
  rw [List.getElem?_take, List.getElem?_drop, List.getElem?_map]
  by_cases hi : i < k
  · rw [if_pos hi, h i hi, List.getElem?_range hi]
    rfl
  · rw [if_neg hi, List.getElem?_eq_none (by simp; omega)]
    rfl

end

theorem readAt_zero (file : List UInt8) (o : Nat) : readAt file o 0 = [] := rfl

theorem readSectors_returns (n : Nat) {lba : Nat} (hlba : lba < 2 ^ 32) :
    Returns (readSectors lba n) s fun r t => t = s ∧
      r = sectorsBytes s.disk ((List.range n).map fun i => w32 (lba + i)) := by
  induction n generalizing lba with
  | zero => exact .pure ⟨rfl, rfl⟩
  | succ n ih =>
    refine .run_bind rfl (.bind (ih (w32_lt _)) fun rest t ht => .pure ⟨ht.1, ?_⟩)
    have hself : w32 (lba + 0) = lba := Nat.mod_eq_of_lt hlba
    have hnext : ∀ i, w32 (w32 (lba + 1) + i) = w32 (lba + (i + 1)) := fun i => by
      rw [w32_w32_add, Nat.add_assoc, Nat.add_comm 1 i]
    rw [ht.2, List.range_succ_eq_map, List.map_cons, List.map_map, hself]
    simp only [hnext]
    rfl

theorem FatChain.at (h : FatChain b first l) (hp : l[p]? = some c) : fat32InRange b c = true ∧
    (∀ d, l[p + 1]? = some d → fat32IsEndCluster (fatEntry b c) = false ∧ fatEntry b c = d) ∧
    (l[p + 1]? = none → fat32IsEndCluster (fatEntry b c) = true) := by
  induction h generalizing p with
  | @last first hc hend =>
    cases p with
    | zero =>
      obtain rfl : first = c := Option.some.inj hp
      exact ⟨hc, by simp, fun _ => hend⟩
    | succ p => simp at hp
  | @link first l hc hend rest ih =>
    cases p with
    | zero =>
      obtain rfl : first = c := Option.some.inj hp
      have hfirst : l[0]? = some (fatEntry b first) := by
        cases rest with
        | last _ _ => rfl
        | link _ _ _ => rfl
      refine ⟨hc, fun d hd => ⟨hend, ?_⟩, fun hn => ?_⟩
      · rw [List.getElem?_cons_succ, hfirst] at hd
        exact Option.some.inj hd
      · rw [List.getElem?_cons_succ, hfirst] at hn
        cases hn
    | succ p =>
      rw [List.getElem?_cons_succ] at hp
      exact ih hp

theorem FatChain.zero (h : FatChain b first l) : l[0]? = some first := by
  cases h with
  | last _ _ => rfl
  | link _ _ _ => rfl

theorem FatChain.walkLinks_eq (h : FatChain b first l) (n : Nat) : walkLinks b n first = l[n]? := by
  induction h generalizing n with
  | last hc hend =>
    cases n with
    | zero => rfl
    | succ n => simp [walkLinks, hc, hend]
  | link hc hend rest ih =>
    cases n with
    | zero => rfl
    | succ n =>
      rw [List.getElem?_cons_succ, ← ih n]
      simp [walkLinks, hc, hend]

theorem chainLbas_at (hp : l[p]? = some c) {i : Nat} (hi : i < b.bpb.sectorsPerCluster) :
    (chainLbas b l)[p * b.bpb.sectorsPerCluster + i]? = some (w32 (fat32ClusterToLba b c + i)) := by
  have hcons : ∀ d m, chainLbas b (d :: m) = clusterLbas b d ++ chainLbas b m :=
    fun d m => List.flatMap_cons
  induction l generalizing p with
  | nil => simp at hp
  | cons d l ih =>
    cases p with
    | zero =>
      obtain rfl : d = c := Option.some.inj hp
      rw [hcons, Nat.zero_mul, Nat.zero_add, List.getElem?_append_left (by rw [length_clusterLbas]; exact hi)]
      simp [clusterLbas, hi]
    | succ p =>
      rw [List.getElem?_cons_succ] at hp
      rw [hcons, List.getElem?_append_right (by rw [length_clusterLbas, Nat.succ_mul]; omega), length_clusterLbas, ← ih hp,
        Nat.succ_mul]
      congr 1
      omega

def chainBytes (b : Fat32) (l : List Nat) : List UInt8 := sectorsBytes b.disk (chainLbas b l)

theorem length_chainBytes (b : Fat32) (l : List Nat) :
    (chainBytes b l).length = 512 * (l.length * b.bpb.sectorsPerCluster) := by
  unfold chainBytes
  rw [length_sectorsBytes, length_chainLbas]

structure OnFiles (b s : Fat32) : Prop where
  work : AtWork b s
  disk : s.disk = b.disk
  ready : s.ready = b.ready

theorem OnFiles.looks (h : OnFiles b s) (hl : Looks b s t) : OnFiles b t := by
  have hready := h.ready
  have hdisk := hl.disk.trans h.disk
  obtain ⟨hwork, cache, rfl⟩ := hl
  exact ⟨hwork, hdisk, hready⟩

theorem OnFiles.getFatEntry (hb : FatLayout b) (h : OnFiles b s) (hc : fat32InRange b c = true) :
    ∃ t, fat32GetFatEntry c s = some (fatEntry b c, t) ∧ Looks b s t := by
  obtain ⟨t, hrun, hlooks⟩ := getFatEntry_looks hb h.1 (inRange_bounds hc).2
  rw [h.2] at hrun
  exact ⟨t, hrun, hlooks⟩

theorem OnFiles.chunk (h : OnFiles b s) (hp : l[p]? = some c) {i o n : Nat}
    (hi : i < b.bpb.sectorsPerCluster) (hn : o + n ≤ 512) :
    (s.disk (w32 (fat32ClusterToLba s c + i))).bytes o n =
      readAt (chainBytes b l) (512 * (p * b.bpb.sectorsPerCluster + i) + o) n := by
  rw [h.1.clusterToLba, h.2]
  exact (readAt_sector (chainLbas_at hp hi) hn).symm

theorem readClusterFrom_returns (h : OnFiles b s) (hp : l[p]? = some c) {bufferSize : Nat}
    (n index left : Nat) (dst : List UInt8) (hindex : index + n = b.bpb.sectorsPerCluster)
    (hroom : dst.length + left ≤ bufferSize) :
    Returns (fat32ReadClusterFrom bufferSize c n index left dst) s fun r t => t = s ∧
      r = (false, left - min left (512 * n), dst ++
        readAt (chainBytes b l) (512 * (p * b.bpb.sectorsPerCluster + index))
        (min left (512 * n))) := by
  induction n generalizing index left dst with
  | zero => exact .pure ⟨rfl, by simp [readAt_zero]⟩
  | succ n ih =>
    refine .ite (fun h0 => .pure ⟨rfl, by simp [h0, readAt_zero]⟩) fun h0 => ?_
    have hchunk : (if 512 < left then 512 else left) = min 512 left := by
      split <;> omega
    dsimp only
    rw [hchunk]
    refine .ite (fun hover => by omega) fun _ => .get_bind (.run_bind rfl ?_)
    have hbytes := h.chunk hp (i := index) (o := 0) (n := min 512 left) (by omega) (by omega)
    rw [Nat.add_zero] at hbytes
    refine (ih (index + 1) (left - min 512 left) _ (by omega) (by simp; omega)).mono fun r t ht => ⟨ht.1, ht.2.trans ?_⟩
    unfold ataReadSector
    rw [hbytes, List.append_assoc]
    by_cases hlt : left < 512
    · rw [Nat.min_eq_right (by omega : left ≤ 512), Nat.min_eq_left (by omega : left ≤ 512 * (n + 1)), Nat.sub_self,
        Nat.zero_min, readAt_zero, List.append_nil]
    · have hnext : 512 * (p * b.bpb.sectorsPerCluster + (index + 1)) =
          512 * (p * b.bpb.sectorsPerCluster + index) + 512 := by
        omega
      have hsum : 512 + min (left - 512) (512 * n) = min left (512 * (n + 1)) := by omega
      have hleft : left - 512 - min (left - 512) (512 * n) = left - min left (512 * (n + 1)) := by
        omega
      rw [Nat.min_eq_left (by omega : 512 ≤ left), hnext, readAt_append, hsum, hleft]

theorem readAt_step (file : List UInt8) {o n left end_ : Nat} (hn : n = left ∨ o + n = end_)
    (hle : n ≤ left) :
    readAt file o n ++ readAt file end_ (left - n) = readAt file o left := by
  obtain rfl | rfl := hn
  · rw [Nat.sub_self, readAt_zero, List.append_nil]
  · rw [readAt_append]
    congr 1
    omega

theorem readChain_returns (hb : FatLayout b) (hchain : FatChain b first l) (h : OnFiles b s)
    (hp : l[p]? = some c) {bufferSize n left : Nat} (hn : l.length < p + n) {dst : List UInt8}
    (hroom : dst.length + left ≤ bufferSize) :
    Returns (fat32ReadChain bufferSize n c left dst) s fun r _ =>
      r = (false, dst ++ readAt (chainBytes b l) (512 * (p * b.bpb.sectorsPerCluster)) left) := by
  induction n generalizing s p c left dst with
  | zero =>
    have hlt := (List.getElem?_eq_some_iff.mp hp).1
    omega
  | succ n ih =>
    obtain ⟨hc, hnext, hlast⟩ := hchain.at hp
    refine .get_bind (.ite (fun _ => ?_) fun hstop => ?_)
    · have hcluster := readClusterFrom_returns h hp b.bpb.sectorsPerCluster 0 left dst (Nat.zero_add _) hroom
      rw [← h.work.bpb, Nat.add_zero] at hcluster
      refine .bind hcluster fun r s₁ h₁ => ?_
      obtain ⟨rfl, rfl⟩ := h₁
      obtain ⟨s₂, hrun, hlooks⟩ := h.getFatEntry hb hc
      rw [h.work.bpb]
      refine .ite (fun hf => absurd hf (by decide)) fun _ => .run_bind hrun ?_
      have hsucc : (p + 1) * b.bpb.sectorsPerCluster = p * b.bpb.sectorsPerCluster +
          b.bpb.sectorsPerCluster := Nat.succ_mul _ _
      cases hcase : l[p + 1]? with
      | none =>
        refine .ite (fun _ => .pure ?_) fun hne => absurd (hlast hcase) hne
        have hlen : l.length = p + 1 := by
          have hlt := (List.getElem?_eq_some_iff.mp hp).1
          have hge := List.getElem?_eq_none_iff.mp hcase
          omega
        rw [readAt_of_end (chainBytes b l) _ left (n := min left (512 * b.bpb.sectorsPerCluster)) (by omega)]
        rw [length_chainBytes, hlen, hsucc]
        omega
      | some d =>
        obtain ⟨hend, hd⟩ := hnext d hcase
        refine .ite (fun he => absurd (hend.symm.trans he) (by decide)) fun _ => ?_
        rw [hd]
        have hlen : (dst ++ readAt (chainBytes b l) (512 * (p * b.bpb.sectorsPerCluster))
            (min left (512 * b.bpb.sectorsPerCluster))).length ≤ dst.length + min left (512 * b.bpb.sectorsPerCluster) := by
          rw [List.length_append, FileBytes.length_readAt]
          omega
        refine (ih (h.looks hlooks) hcase (by omega) (by omega)).mono fun r t ht => ht.trans ?_
        rw [List.append_assoc, readAt_step _ (by omega) (by omega)]
    · rw [h.work.inRange, hc, Bool.true_and, decide_eq_true_eq] at hstop
      obtain rfl : left = 0 := by omega
      exact .pure (by rw [readAt_zero, List.append_nil])

theorem readPartFrom_returns (h : OnFiles b s) (hp : l[p]? = some c) (o rounds index left : Nat)
    (dst : List UInt8) (hrounds : b.bpb.sectorsPerCluster ≤ index + rounds) :
    Returns (fat32ReadPartFrom c o rounds index left dst) s fun r t => t = s ∧
      r = (left - min left (512 * b.bpb.sectorsPerCluster - max (512 * index) o),
        dst ++ readAt (chainBytes b l) (512 * (p * b.bpb.sectorsPerCluster) + max (512 * index) o)
          (min left (512 * b.bpb.sectorsPerCluster - max (512 * index) o))) := by
  induction rounds generalizing index left dst with
  | zero =>
    refine .pure ⟨rfl, ?_⟩
    rw [show 512 * b.bpb.sectorsPerCluster - max (512 * index) o = 0 by omega, Nat.min_zero,
      readAt_zero, List.append_nil,
      Nat.sub_zero]
  | succ rounds ih =>
    refine .get_bind (.ite (fun hgo => ?_) fun hstop => .pure ⟨rfl, ?_⟩)
    · obtain ⟨hi, hleft⟩ := hgo
      rw [h.work.bpb] at hi
      refine .ite (fun hskip => ?_) fun hskip => ?_
      · refine (ih (index + 1) left dst (by omega)).mono fun r t ht => ⟨ht.1, ht.2.trans ?_⟩
        rw [show max (512 * (index + 1)) o = max (512 * index) o by omega]
      · have hpos : max (512 * index) o = 512 * index + (o - index * 512) := by omega
        have hnext : max (512 * (index + 1)) o = 512 * (index + 1) := by omega
        have hbase : 512 * (p * b.bpb.sectorsPerCluster) + 512 * index = 512 * (p * b.bpb.sectorsPerCluster + index) := by omega
        rw [hpos]
        refine .ite (fun hwhole => ?_) fun _ => ?_
        · -- several whole sectors with one command
          obtain ⟨hstart, hfull, -⟩ := hwhole
          rw [h.work.bpb, h.1.clusterToLba]
          generalize hk : min (min (left / 512) (b.bpb.sectorsPerCluster - index)) 255 = k
          have hbytes : readAt (chainBytes b l) (512 * (p * b.bpb.sectorsPerCluster + index)) (512 * k) =
              sectorsBytes b.disk ((List.range k).map fun i => w32 (w32 (fat32ClusterToLba b c + index) + i)) := by
            refine readAt_sectors fun i hi => ?_
            rw [w32_w32_add, Nat.add_assoc, Nat.add_assoc]
            exact chainLbas_at hp (by omega)
          refine .bind (readSectors_returns k (w32_lt _)) fun bytes s₁ h₁ => ?_
          obtain ⟨rfl, rfl⟩ := h₁
          refine (ih (index + k) (left - k * 512) _ (by omega)).mono fun r t ht => ⟨ht.1,
            ht.2.trans ?_⟩
          rw [h.2, ← hbytes, List.append_assoc, hstart, Nat.add_zero, hbase,
            show max (512 * (index + k)) o = 512 * (index + k) by omega]
          have hsum : 512 * k + min (left - k * 512) (512 * b.bpb.sectorsPerCluster - 512 * (index + k)) =
              min left (512 * b.bpb.sectorsPerCluster - 512 * index) := by omega
          have hmove : 512 * (p * b.bpb.sectorsPerCluster) + 512 * (index + k) =
              512 * (p * b.bpb.sectorsPerCluster + index) + 512 * k := by omega
          have hrest : left - k * 512 - min (left - k * 512) (512 * b.bpb.sectorsPerCluster - 512 * (index + k)) =
              left - min left (512 * b.bpb.sectorsPerCluster - 512 * index) := by omega
          rw [hmove, readAt_append, hsum, hrest]
        · -- a part of one sector
          generalize hn : min (512 - (o - index * 512)) left = n
          have hbytes := h.chunk hp hi (o := o - index * 512) (n := n) (by omega)
          refine .run_bind rfl ((ih (index + 1) (left - n) _ (by omega)).mono fun r t ht => ⟨ht.1, ht.2.trans ?_⟩)
          unfold ataReadSector
          rw [hbytes, List.append_assoc, hnext, ← Nat.add_assoc, hbase]
          clear hpos hnext hbase
          have hrest : left - n - min (left - n) (512 * b.bpb.sectorsPerCluster - 512 * (index + 1)) =
              left - min left (512 * b.bpb.sectorsPerCluster - (512 * index + (o - index * 512))) := by omega
          have hmin : min (left - n) (512 * b.bpb.sectorsPerCluster - 512 * (index + 1)) =
              min left (512 * b.bpb.sectorsPerCluster - (512 * index + (o - index * 512))) - n := by omega
          rw [hrest, hmin, readAt_step _ (by omega) (by omega)]
    · rw [h.work.bpb] at hstop
      rw [show min left (512 * b.bpb.sectorsPerCluster - max (512 * index) o) = 0 by omega,
        readAt_zero, List.append_nil,
        Nat.sub_zero]

theorem probeContiguous_returns (hb : FatLayout b) (hchain : FatChain b first l) (h : OnFiles b s)
    (hp : l[p]? = some c) (n : Nat) :
    Returns (fat32ProbeContiguous n c) s fun last t => Looks b s t ∧
      ∃ k, k ≤ n ∧ last = c + k ∧ ∀ i, i ≤ k → l[p + i]? = some (c + i) := by
  induction n generalizing s p c with
  | zero => exact .pure ⟨.refl h.1, 0, le_rfl, rfl, fun i hi => by rw [Nat.le_zero.mp hi]; exact hp⟩
  | succ n ih =>
    obtain ⟨hc, hnext, hlast⟩ := hchain.at hp
    obtain ⟨s₁, hrun, hlooks⟩ := h.getFatEntry hb hc
    refine .run_bind hrun (.ite (fun heq => ?_) fun _ => .pure ⟨hlooks, 0, Nat.zero_le _, rfl, fun i hi => ?_⟩)
    · have hsmall := hb.small
      have hlt := (inRange_bounds hc).2
      unfold SmallVolume fat32ClusterBad at hsmall
      have hw : w32 (c + 1) = c + 1 := Nat.mod_eq_of_lt (by omega)
      rw [hw] at heq
      cases hcase : l[p + 1]? with
      | none =>
        have hend := hlast hcase
        rw [heq] at hend
        unfold fat32IsEndCluster at hend
        have hlow := of_decide_eq_true (Bool.and_eq_true_iff.mp hend).1
        unfold fat32ClusterEnd fat32Masked at hlow
        omega
      | some d =>
        obtain ⟨-, hd⟩ := hnext d hcase
        have hfollows : l[p + 1]? = some (c + 1) := by rw [hcase, ← hd, heq]
        rw [heq]
        refine (ih (h.looks hlooks) hfollows).mono fun last t ht => ?_
        obtain ⟨hlooks', k, hk, rfl, hall⟩ := ht
        refine ⟨hlooks.trans hlooks', k + 1, by omega, by omega, fun i hi => ?_⟩
        cases i with
        | zero => exact hp
        | succ i =>
          have hi' := hall i (by omega)
          rw [show p + (i + 1) = p + 1 + i by omega, hi']
          congr 1
          omega
    · rw [Nat.le_zero.mp hi]
      exact hp

structure Positioned (b : Fat32) (first : Nat) (l : List Nat) (p : Nat) (s : Fat32) : Prop where
  files : OnFiles b s
  start : s.readCacheStartCluster = first
  index : s.readCacheClusterIndex = p
  cluster : l[p]? = some s.readCacheCluster

theorem Positioned.looks (h : Positioned b first l p s) (hl : Looks b s t) :
    Positioned b first l p t := by
  have hfiles := h.files.looks hl
  obtain ⟨-, cache, rfl⟩ := hl
  exact ⟨hfiles, h.start, h.index, h.cluster⟩

theorem Positioned.advance (h : Positioned b first l p s) (hlen : l.length < 2 ^ 32) {k d : Nat}
    (hd : l[p + k]? = some d) :
    Positioned b first l (p + k) (fat32AdvanceReadCache k d s) := by
  have hlt := (List.getElem?_eq_some_iff.mp hd).1
  obtain ⟨hwork, hdisk, hready⟩ := h.files
  refine ⟨⟨⟨hwork.bpb, hwork.fatLba, hwork.dataLba, hwork.clusterCount, hwork.walOn, hwork.walLogLba, hwork.walMax,
    hwork.cache⟩, hdisk, hready⟩, h.start, ?_, hd⟩
  show w32 (s.readCacheClusterIndex + k) = p + k
  rw [h.index]
  exact Nat.mod_eq_of_lt (by omega)

theorem readAtRound_returns (hb : FatLayout b) (hchain : FatChain b first l)
    (hlen : l.length < 2 ^ 32) (h : Positioned b first l p s) {o left : Nat}
    (ho : o < 512 * b.bpb.sectorsPerCluster) (dst : List UInt8) :
    Returns (fat32ReadAtRound s.readCacheCluster o left dst) s fun r t => ∃ k m, Positioned b first l (p + k) t ∧
      m = min left (512 * ((k + 1) * b.bpb.sectorsPerCluster) - o) ∧
      r = (t.readCacheCluster, left - m, dst ++
        readAt (chainBytes b l) (512 * (p * b.bpb.sectorsPerCluster) + o) m) := by
  obtain ⟨n, heq, hn⟩ := readAtRound_eq s.readCacheCluster o left dst s
  have hwork := h.files.1
  unfold Returns
  rw [heq]
  rw [hwork.bpb] at hn ⊢
  generalize hcluster : s.readCacheCluster = c
  have hp : l[p]? = some c := hcluster ▸ h.cluster
  -- the clusters found lie one behind the other and are wanted as a whole
  refine Returns.bind (P := fun last t => Looks b s t ∧ ∃ k,
    last = c + k ∧ (∀ i, i ≤ k → l[p + i]? = some (c + i)) ∧
    (0 < k → o = 0 ∧ (k + 1) * (b.bpb.sectorsPerCluster * 512) ≤ left)) (.ite (fun hwhole => ?_) fun _ => ?_)
    fun last s₁ h₁ => ?_
  · refine (probeContiguous_returns hb hchain h.files hp n).mono fun last t ht => ?_
    obtain ⟨hlooks, k, hk, rfl, hall⟩ := ht
    refine ⟨hlooks, k, rfl, hall, fun hpos => ⟨hwhole.1, ?_⟩⟩
    have hdiv : k + 1 ≤ left / (b.bpb.sectorsPerCluster * 512) := by omega
    calc (k + 1) * (b.bpb.sectorsPerCluster * 512)
        ≤ left / (b.bpb.sectorsPerCluster * 512) * (b.bpb.sectorsPerCluster * 512) := Nat.mul_le_mul_right _ hdiv
      _ ≤ left := Nat.div_mul_le_self _ _
  · refine .pure ⟨.refl hwork, 0, rfl, fun i hi => ?_, fun h0 => absurd h0 (by decide)⟩
    rw [Nat.le_zero.mp hi]
    exact hp
  · obtain ⟨hlooks, k, rfl, hall, hwanted⟩ := h₁
    have hat := h.looks hlooks
    rw [hwork.clusterToLba]
    refine .ite (fun hmany => ?_) fun hone => ?_
    · obtain ⟨rfl, hroom⟩ := hwanted (by omega)
      have hcount : c + k - c + 1 = k + 1 := by omega
      rw [hcount]
      have hbytes : readAt (chainBytes b l) (512 * (p * b.bpb.sectorsPerCluster)) (512 * ((k + 1) * b.bpb.sectorsPerCluster)) =
          sectorsBytes b.disk ((List.range ((k + 1) * b.bpb.sectorsPerCluster)).map fun i =>
            w32 (fat32ClusterToLba b c + i)) := by
        refine readAt_sectors fun i hi => ?_
        have hj : i / b.bpb.sectorsPerCluster < k + 1 :=
          Nat.div_lt_of_lt_mul (by rwa [Nat.mul_comm] at hi)
        have hsector := chainLbas_at (b := b) (hall (i / b.bpb.sectorsPerCluster) (by omega)) (Nat.mod_lt i hb.spc)
        rw [clusterToLba_add, Nat.add_mul, Nat.add_assoc, Nat.div_add_mod'] at hsector
        exact hsector
      refine .bind (readSectors_returns _ (w32_lt _)) fun bytes s₂ h₂ => .run_bind rfl
        (.pure ⟨k, _, ?_, rfl, ?_⟩)
      · rw [h₂.1, Nat.add_sub_cancel]
        exact hat.advance hlen (hall k le_rfl)
      · rw [h₂.2, hat.files.2, ← hbytes, Nat.add_zero, Nat.sub_zero]
        have hm : min left (512 * ((k + 1) * b.bpb.sectorsPerCluster)) =
            512 * ((k + 1) * b.bpb.sectorsPerCluster) := by
          rw [← Nat.mul_assoc, Nat.mul_comm] at hroom
          omega
        rw [hm, Nat.mul_comm 512 ((k + 1) * b.bpb.sectorsPerCluster)]
        rfl
    · obtain rfl : k = 0 := by omega
      have hpart := readPartFrom_returns hat.files hp o b.bpb.sectorsPerCluster 0 left dst (by omega)
      rw [show max (512 * 0) o = o by omega] at hpart
      refine .bind hpart fun r t ht => .pure ?_
      obtain ⟨rfl, rfl⟩ := ht
      refine ⟨0, _, hat, rfl, ?_⟩
      have hsame : t.readCacheCluster = c := by
        have := hat.cluster
        rw [hp] at this
        exact (Option.some.inj this).symm
      rw [hsame, Nat.zero_add, Nat.one_mul]

theorem readAtChain_returns (hb : FatLayout b) (hchain : FatChain b first l)
    (hlen : l.length < 2 ^ 32) (h : Positioned b first l p s) {n o left : Nat}
    (hn : l.length < p + n) (ho : o < 512 * b.bpb.sectorsPerCluster) (dst : List UInt8) :
    Returns (fat32ReadAtChain n s.readCacheCluster o left dst) s fun r t =>
      r = dst ++ readAt (chainBytes b l) (512 * (p * b.bpb.sectorsPerCluster) + o) left ∧
      ∃ q, Positioned b first l q t := by
  induction n generalizing s p o left dst with
  | zero =>
    have hlt := (List.getElem?_eq_some_iff.mp h.cluster).1
    omega
  | succ n ih =>
    obtain ⟨hc, -, -⟩ := hchain.at h.cluster
    refine .get_bind (.ite (fun _ => ?_) fun hstop => ?_)
    · refine .bind (readAtRound_returns hb hchain hlen h ho dst) fun r s₁ h₁ => ?_
      obtain ⟨k, m, h₁, hm, rfl⟩ := h₁
      obtain ⟨hc₁, hnext, hlast⟩ := hchain.at h₁.cluster
      have hsucc : (p + k + 1) * b.bpb.sectorsPerCluster = p * b.bpb.sectorsPerCluster +
          (k + 1) * b.bpb.sectorsPerCluster := by
        rw [Nat.add_assoc, Nat.add_mul]
      refine .ite (fun hdone => .pure ⟨?_, _, h₁⟩) fun hmore => ?_
      · obtain rfl : m = left := by omega
        rfl
      · obtain ⟨s₂, hrun, hlooks⟩ := h₁.files.getFatEntry hb hc₁
        have hat := h₁.looks hlooks
        refine .run_bind hrun ?_
        -- the clusters of the round have been read to their end
        have hspan : b.bpb.sectorsPerCluster ≤ (k + 1) * b.bpb.sectorsPerCluster :=
          Nat.le_mul_of_pos_left _ (Nat.succ_pos k)
        have hfull : 512 * (p * b.bpb.sectorsPerCluster) + o + m =
            512 * ((p + k + 1) * b.bpb.sectorsPerCluster) := by
          rw [hsucc]
          omega
        cases hcase : l[p + k + 1]? with
        | none =>
          refine .ite (fun _ => .pure ⟨?_, _, hat⟩) fun hne => absurd (hlast hcase) hne
          have hend : l.length = p + k + 1 := by
            have hlt := (List.getElem?_eq_some_iff.mp h₁.cluster).1
            have hge := List.getElem?_eq_none_iff.mp hcase
            omega
          rw [readAt_of_end (chainBytes b l) _ left (n := m) (by omega) (.inr ?_)]
          rw [length_chainBytes, hend, hfull]
        | some d =>
          obtain ⟨hend, hd⟩ := hnext d hcase
          refine .ite (fun he => absurd (hend.symm.trans he) (by decide)) fun _ => .run_bind rfl ?_
          rw [hd]
          have hspc := hb.spc
          refine (ih (hat.advance hlen hcase) (by omega) (by omega) _).mono fun r t ht =>
            ⟨ht.1.trans ?_, ht.2⟩
          rw [List.append_assoc, Nat.add_zero, readAt_step _ (.inr hfull) (by omega)]
    · rw [h.files.1.inRange, hc, Bool.true_and, decide_eq_true_eq] at hstop
      obtain rfl : left = 0 := by omega
      exact .pure ⟨by rw [readAt_zero, List.append_nil], p, h⟩

theorem walkClusters_returns (hb : FatLayout b) (hchain : FatChain b first l) (h : OnFiles b s)
    (hp : l[p]? = some c) (n : Nat) (hn : p + n < l.length) :
    Returns (fat32WalkClusters n c) s fun r t => Looks b s t ∧ r = l[p + n]? := by
  induction n generalizing s p c with
  | zero => exact .pure ⟨.refl h.1, hp.symm⟩
  | succ n ih =>
    obtain ⟨hc, hnext, -⟩ := hchain.at hp
    obtain ⟨s₁, hrun, hlooks⟩ := h.getFatEntry hb hc
    have hcase : l[p + 1]? = some l[p + 1] := List.getElem?_eq_getElem (by omega)
    obtain ⟨hend, hd⟩ := hnext _ hcase
    refine .get_bind (.ite (fun _ => .run_bind hrun (.ite (fun he => absurd (hend.symm.trans he) (by decide)) fun _ => ?_))
      fun hout => absurd ((h.work.inRange c).trans hc) hout)
    rw [hd]
    refine (ih (h.looks hlooks) hcase (by omega)).mono fun r t ht => ⟨hlooks.trans ht.1,
      ht.2.trans ?_⟩
    rw [Nat.add_assoc, Nat.add_comm 1 n]

theorem Positioned.set (h : OnFiles b s) (path : List UInt8) {target : Nat}
    (hc : l[target]? = some c) :
    Positioned b first l target (fat32SetReadCache path first target c s) := by
  obtain ⟨hwork, hdisk, hready⟩ := h
  exact ⟨⟨⟨hwork.bpb, hwork.fatLba, hwork.dataLba, hwork.clusterCount, hwork.walOn, hwork.walLogLba, hwork.walMax,
    hwork.cache⟩, hdisk, hready⟩, rfl, rfl, hc⟩

theorem readAt_returns (hb : FatLayout b) (hchain : FatChain b first l) (hlen : l.length < 2 ^ 32)
    (h : OnFiles b s) (hread : ReadCacheOk b s) {n o : Nat} (hn : l.length < n)
    (ho : o < 512 * (l.length * b.bpb.sectorsPerCluster)) (path : List UInt8) (count : Nat) :
    Returns (fat32ReadAt n path first o count) s fun r t =>
      r = readAt (chainBytes b l) o count ∧ ∃ q, Positioned b first l q t := by
  refine .get_bind ?_
  have hspc := hb.spc
  have hcluster : b.bpb.sectorsPerCluster * 512 = 512 * b.bpb.sectorsPerCluster := Nat.mul_comm _ _
  rw [h.work.bpb, hcluster]
  generalize htarget : o / (512 * b.bpb.sectorsPerCluster) = target
  have hlt : target < l.length := by
    rw [← htarget]
    refine Nat.div_lt_of_lt_mul ?_
    rw [Nat.mul_assoc, Nat.mul_comm b.bpb.sectorsPerCluster]
    exact ho
  have hrest : ∀ s₁, Looks b s s₁ → Returns (do
      change (fat32SetReadCache path first target l[target])
      fat32ReadAtChain n l[target] (o % (512 * b.bpb.sectorsPerCluster)) count []) s₁ fun r t =>
        r = readAt (chainBytes b l) o count ∧ ∃ q, Positioned b first l q t := by
    intro s₁ h₁
    have hat : Positioned b first l target (fat32SetReadCache path first target l[target] s₁) :=
      .set (h.looks h₁) path (List.getElem?_eq_getElem hlt)
    have hmod : o % (512 * b.bpb.sectorsPerCluster) < 512 * b.bpb.sectorsPerCluster :=
      Nat.mod_lt _ (by omega)
    refine .run_bind rfl ((readAtChain_returns hb hchain hlen hat (by omega) hmod []).mono fun r t ht => ⟨?_, ht.2⟩)
    have hsplit : 512 * (target * b.bpb.sectorsPerCluster) + o % (512 * b.bpb.sectorsPerCluster) =
        o := by
      rw [← htarget, Nat.mul_left_comm, Nat.mul_comm (o / _)]
      exact Nat.div_add_mod o _
    rw [ht.1, List.nil_append, hsplit]
  -- the walk starts at the first cluster, or at the one in the read cache
  have hwalk : ∀ q c, l[q]? = some c → q ≤ target → Returns (fat32WalkClusters (target - q) c) s fun r t =>
      Looks b s t ∧ r = some l[target] := by
    intro q c hq hle
    refine (walkClusters_returns hb hchain h hq (target - q) (by omega)).mono fun r t ht => ⟨ht.1,
      ht.2.trans ?_⟩
    rw [Nat.add_sub_cancel' hle]
    exact List.getElem?_eq_getElem hlt
  have hfirst := hwalk 0 first hchain.zero (Nat.zero_le _)
  rw [Nat.sub_zero] at hfirst
  have hstart : Returns (fat32WalkClusters (walkStart s path first target).2 (walkStart s path first target).1) s fun r t =>
      Looks b s t ∧ r = some l[target] := by
    unfold walkStart
    cases hhit : fat32ReadCacheHit s path first target with
    | none => exact hfirst
    | some q =>
      obtain ⟨cluster, index⟩ := q
      unfold fat32ReadCacheHit at hhit
      split at hhit
      · next hcond =>
        simp only [Bool.and_eq_true, beq_iff_eq, decide_eq_true_eq] at hcond
        obtain ⟨⟨⟨⟨hvalid, -⟩, hfrom⟩, -⟩, hle⟩ := hcond
        obtain ⟨rfl, rfl⟩ := Prod.mk.inj (Option.some.inj hhit)
        have hcached := hread hvalid
        rw [hfrom, hchain.walkLinks_eq] at hcached
        exact hwalk _ _ hcached hle
      · cases hhit
  subst htarget
  refine Returns.bind hstart fun r s₁ h₁ => ?_
  obtain ⟨hlooks, rfl⟩ := h₁
  exact hrest s₁ hlooks

end Monios.Analysis
