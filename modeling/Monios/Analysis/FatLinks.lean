import Monios.Analysis.ClusterOwnership
import Monios.Analysis.VolumeCheck
import Monios.Model.FatCalls

/-!
# Symbolic links of the FAT32 driver

A link is a file that begins with a mark. `fat32_is_symlink` reads the file into a buffer of the
length of the mark, and `fat32_read_file` refuses a file that is longer than the buffer.
-/

set_option autoImplicit false

namespace Monios.Analysis

open Monios.Library Monios.Model

structure LinkReadsBack (s : Fat32) (path target : List UInt8) : Prop where
  recognised : ∃ most, ∀ fuel, most ≤ fuel → ∃ s', fat32IsSymlink fuel path s = some (true, s')
  target : ∃ most, ∀ fuel, most ≤ fuel → ∀ targetSize, target.length < targetSize →
    ∃ s', fat32ReadSymlink fuel path targetSize s = some (((target.length : Int), target.map fromBackendSeparator), s')

def SymlinkRoundTrip (s : Fat32) (target linkpath : List UInt8) : Prop :=
  ∀ fuel s', fat32Symlink fuel target linkpath s = some (true, s') → LinkReadsBack s' linkpath target

def PlainFilesPlain (s : Fat32) : Prop :=
  ∀ fuel path bufferSize n bytes s₁, fat32ReadFile fuel path bufferSize s = some ((n, bytes), s₁) → 0 ≤ n →
    ¬ fat32SymlinkMagic <+: bytes → ∀ b s₂, fat32IsSymlink fuel path s = some (b, s₂) → b = false

section

variable {s s' : Fat32} {fuel : Nat} {path : List UInt8}

theorem readFile_cases {bufferSize : Nat} {n : Int} {bytes : List UInt8} (hn : 0 ≤ n)
    (h : fat32ReadFile fuel path bufferSize s = some ((n, bytes), s')) :
    ∃ dir slot s₁, fat32ResolvePath fuel path s = some (some (dir, slot), s₁) ∧
      n = int32 slot.entry.fileSize ∧
      fat32ReadChain bufferSize fuel slot.entry.cluster slot.entry.fileSize [] s₁ =
      some ((false, bytes), s') := by
  unfold fat32ReadFile at h
  simp only [bind_apply, get_apply, Option.bind_some] at h
  cases hready : s.ready with
  | false =>
    rw [hready] at h
    obtain ⟨rfl, -⟩ := Prod.mk.inj (Prod.mk.inj (Option.some.inj h)).1
    omega
  | true =>
    simp only [hready, Bool.not_true, Bool.false_eq_true, if_false, bind_apply,
      Option.bind_eq_some_iff] at h
    obtain ⟨⟨found, s₁⟩, hpath, h⟩ := h
    cases found with
    | none =>
      obtain ⟨rfl, -⟩ := Prod.mk.inj (Prod.mk.inj (Option.some.inj h)).1
      omega
    | some p =>
      obtain ⟨dir, slot⟩ := p
      cases hdir : slot.entry.isDirectory with
      | true =>
        simp only [hdir, if_true, pure_apply] at h
        obtain ⟨rfl, -⟩ := Prod.mk.inj (Prod.mk.inj (Option.some.inj h)).1
        omega
      | false =>
        simp only [hdir, Bool.false_eq_true, if_false, bind_apply, Option.bind_eq_some_iff] at h
        obtain ⟨⟨⟨overflow, dst⟩, s₂⟩, hchain, h⟩ := h
        cases overflow with
        | true =>
          obtain ⟨rfl, -⟩ := Prod.mk.inj (Prod.mk.inj (Option.some.inj h)).1
          omega
        | false =>
          obtain ⟨hanswer, rfl⟩ := Prod.mk.inj (Option.some.inj h)
          obtain ⟨rfl, rfl⟩ := Prod.mk.inj hanswer
          exact ⟨dir, slot, s₁, hpath, rfl, hchain⟩

theorem readClusterFrom_mono {small large : Nat} (hle : small ≤ large)
    {cluster n sectorIndex bytesLeft left : Nat} {dst bytes : List UInt8}
    (h : fat32ReadClusterFrom small cluster n sectorIndex bytesLeft dst s =
      some ((false, left, bytes), s')) :
    fat32ReadClusterFrom large cluster n sectorIndex bytesLeft dst s = some
    ((false, left, bytes), s') := by
  induction n generalizing sectorIndex bytesLeft dst s with
  | zero => exact h
  | succ n ih =>
    unfold fat32ReadClusterFrom at h ⊢
    by_cases hdone : bytesLeft = 0
    · rw [if_pos hdone] at h ⊢
      exact h
    · rw [if_neg hdone] at h ⊢
      by_cases hroom : small < dst.length + (if 512 < bytesLeft then 512 else bytesLeft)
      · rw [if_pos hroom] at h
        cases h
      · rw [if_neg hroom] at h
        rw [if_neg (by omega)]
        simp only [bind_apply, get_apply, Option.bind_some, readSector_apply] at h ⊢
        exact ih h

theorem readChain_mono {small large : Nat} (hle : small ≤ large) {cluster bytesLeft : Nat}
    {dst bytes : List UInt8} (h : fat32ReadChain small fuel cluster bytesLeft dst s = some ((false, bytes), s')) :
    fat32ReadChain large fuel cluster bytesLeft dst s = some ((false, bytes), s') := by
  induction fuel generalizing cluster bytesLeft dst s with
  | zero => cases h
  | succ fuel ih =>
    unfold fat32ReadChain at h ⊢
    simp only [bind_apply, get_apply, Option.bind_some] at h ⊢
    by_cases hmore : (fat32InRange s cluster && decide (0 < bytesLeft)) = true
    · rw [if_pos hmore] at h ⊢
      rw [bind_apply, Option.bind_eq_some_iff] at h
      obtain ⟨⟨⟨overflow, left, read⟩, s₁⟩, hsectors, h⟩ := h
      cases overflow with
      | true => cases h
      | false =>
        rw [bind_apply, readClusterFrom_mono hle hsectors]
        simp only [Bool.false_eq_true, if_false, bind_apply, Option.bind_some,
          Option.bind_eq_some_iff] at h ⊢
        obtain ⟨⟨next, s₂⟩, hnext, h⟩ := h
        refine ⟨(next, s₂), hnext, ?_⟩
        by_cases hend : fat32IsEndCluster next = true
        · rw [if_pos hend] at h ⊢
          exact h
        · rw [if_neg hend] at h ⊢
          exact ih h
    · rw [if_neg hmore] at h ⊢
      exact h

theorem readClusterFrom_small {bufferSize : Nat} (hsmall : bufferSize < 512)
    {cluster n sectorIndex bytesLeft left : Nat} {bytes : List UInt8}
    (h : fat32ReadClusterFrom bufferSize cluster n sectorIndex bytesLeft [] s =
      some ((false, left, bytes), s')) :
    bytesLeft ≤ bufferSize ∨ left = bytesLeft ∧ bytes = [] := by
  cases n with
  | zero =>
    obtain ⟨hleft, hbytes⟩ := Prod.mk.inj (Prod.mk.inj (Prod.mk.inj (Option.some.inj h)).1).2
    exact .inr ⟨hleft.symm, hbytes.symm⟩
  | succ n =>
    unfold fat32ReadClusterFrom at h
    by_cases hdone : bytesLeft = 0
    · exact .inl (by omega)
    · rw [if_neg hdone] at h
      by_cases hroom : bufferSize < ([] : List UInt8).length + (if 512 < bytesLeft then 512 else bytesLeft)
      · rw [if_pos hroom] at h
        cases h
      · rw [List.length_nil, Nat.zero_add] at hroom
        left
        by_cases hbig : 512 < bytesLeft
        · rw [if_pos hbig] at hroom
          omega
        · rw [if_neg hbig] at hroom
          omega

theorem readChain_small {bufferSize : Nat} (hsmall : bufferSize < 512) {cluster bytesLeft : Nat}
    {bytes : List UInt8} (h : fat32ReadChain bufferSize fuel cluster bytesLeft [] s = some ((false, bytes), s')) :
    bytesLeft ≤ bufferSize ∨ bytes = [] := by
  induction fuel generalizing cluster s with
  | zero => cases h
  | succ fuel ih =>
    unfold fat32ReadChain at h
    simp only [bind_apply, get_apply, Option.bind_some] at h
    by_cases hmore : (fat32InRange s cluster && decide (0 < bytesLeft)) = true
    · rw [if_pos hmore, bind_apply, Option.bind_eq_some_iff] at h
      obtain ⟨⟨⟨overflow, left, read⟩, s₁⟩, hsectors, h⟩ := h
      cases overflow with
      | true => cases h
      | false =>
        obtain hfits | ⟨rfl, rfl⟩ := readClusterFrom_small hsmall hsectors
        · exact .inl hfits
        · simp only [Bool.false_eq_true, if_false, bind_apply, Option.bind_eq_some_iff] at h
          obtain ⟨⟨next, s₂⟩, hnext, h⟩ := h
          by_cases hend : fat32IsEndCluster next = true
          · rw [if_pos hend] at h
            exact .inr (Prod.mk.inj (Prod.mk.inj (Option.some.inj h)).1).2.symm
          · rw [if_neg hend] at h
            exact ih h
    · rw [if_neg hmore] at h
      exact .inr (Prod.mk.inj (Prod.mk.inj (Option.some.inj h)).1).2.symm

theorem length_symlinkMagic : fat32SymlinkMagic.length = 10 := rfl

theorem readFile_of_isSymlink (h : fat32IsSymlink fuel path s = some (true, s')) :
    ∃ n bytes, fat32ReadFile fuel path fat32SymlinkMagic.length s = some ((n, bytes), s') ∧ 10 ≤ n ∧
      bytes.take fat32SymlinkMagic.length = fat32SymlinkMagic := by
  unfold fat32IsSymlink at h
  simp only [bind_apply, get_apply, Option.bind_some] at h
  cases hready : s.ready with
  | false =>
    rw [hready] at h
    cases h
  | true =>
    simp only [hready, Bool.not_true, Bool.false_eq_true, if_false, bind_apply,
      Option.bind_eq_some_iff] at h
    obtain ⟨⟨⟨n, bytes⟩, s₁⟩, hread, h⟩ := h
    obtain ⟨hanswer, rfl⟩ := Prod.mk.inj (Option.some.inj h)
    rw [Bool.and_eq_true, decide_eq_true_eq, beq_iff_eq] at hanswer
    exact ⟨n, bytes, hread, hanswer.1, hanswer.2⟩

theorem fileSize_of_isSymlink (h : fat32IsSymlink fuel path s = some (true, s')) :
    ∃ dir slot s₁, fat32ResolvePath fuel path s = some (some (dir, slot), s₁) ∧
      slot.entry.fileSize = 10 := by
  obtain ⟨n, bytes, hread, hn, hmagic⟩ := readFile_of_isSymlink h
  obtain ⟨dir, slot, s₁, hpath, rfl, hchain⟩ := readFile_cases (by omega) hread
  refine ⟨dir, slot, s₁, hpath, ?_⟩
  obtain hfits | rfl := readChain_small (by decide) hchain
  · rw [length_symlinkMagic] at hfits
    unfold int32 at hn
    split at hn <;> omega
  · cases hmagic

theorem readSymlink_of_fileSize {dir : Fat32DirRef} {slot : Fat32DirSlot} {s₁ : Fat32}
    (hpath : fat32ResolvePath fuel path s = some (some (dir, slot), s₁))
    (hsize : slot.entry.fileSize = 10) {targetSize : Nat} {n : Int} {target : List UInt8}
    (h : fat32ReadSymlink fuel path targetSize s = some ((n, target), s')) : n ≤ 0 := by
  unfold fat32ReadSymlink at h
  simp only [bind_apply, get_apply, Option.bind_some] at h
  by_cases hrefused : (!s.ready || targetSize == 0) = true
  · rw [if_pos hrefused] at h
    obtain ⟨rfl, -⟩ := Prod.mk.inj (Prod.mk.inj (Option.some.inj h)).1
    omega
  · rw [if_neg hrefused, bind_apply, Option.bind_eq_some_iff] at h
    obtain ⟨⟨⟨m, bytes⟩, s₂⟩, hread, h⟩ := h
    dsimp only at h
    by_cases hshort : m < fat32SymlinkMagic.length
    · rw [if_pos hshort] at h
      obtain ⟨rfl, -⟩ := Prod.mk.inj (Prod.mk.inj (Option.some.inj h)).1
      omega
    · rw [length_symlinkMagic] at hshort
      obtain ⟨dir', slot', s₃, hpath', rfl, -⟩ := readFile_cases (by omega) hread
      rw [hpath] at hpath'
      cases hpath'
      rw [if_neg (by rw [length_symlinkMagic]; exact hshort)] at h
      by_cases hmagic : bytes.take fat32SymlinkMagic.length ≠ fat32SymlinkMagic
      · rw [if_pos hmagic] at h
        obtain ⟨rfl, -⟩ := Prod.mk.inj (Prod.mk.inj (Option.some.inj h)).1
        omega
      · rw [if_neg hmagic] at h
        obtain ⟨rfl, -⟩ := Prod.mk.inj (Prod.mk.inj (Option.some.inj h)).1
        rw [hsize]
        decide

theorem not_linkReadsBack {target : List UInt8} (hne : target ≠ []) :
    ¬ LinkReadsBack s path target := by
  rintro ⟨⟨most, hlink⟩, most', htarget⟩
  obtain ⟨s₁, hlink⟩ := hlink (max most most') (le_max_left _ _)
  obtain ⟨s₂, htarget⟩ := htarget (max most most') (le_max_right _ _) (target.length + 1) (Nat.lt_succ_self _)
  obtain ⟨dir, slot, s₃, hpath, hsize⟩ := fileSize_of_isSymlink hlink
  have hlength := readSymlink_of_fileSize hpath hsize htarget
  have hpos := List.length_pos_iff.mpr hne
  omega

theorem plainFilesPlain (s : Fat32) : PlainFilesPlain s := by
  intro fuel path bufferSize n bytes s₁ hread hn hplain b s₂ hlink
  cases b with
  | false => rfl
  | true =>
    exfalso
    obtain ⟨m, bytes', hread', hm, hmagic⟩ := readFile_of_isSymlink hlink
    obtain ⟨dir, slot, s₃, hpath, -, hchain⟩ := readFile_cases hn hread
    obtain ⟨dir', slot', s₃', hpath', -, hchain'⟩ := readFile_cases (by omega) hread'
    rw [hpath] at hpath'
    cases hpath'
    have hsame : bytes = bytes' := by
      obtain hle | hle := Nat.le_total bufferSize fat32SymlinkMagic.length
      · have hlarge := readChain_mono hle hchain
        rw [hchain'] at hlarge
        cases hlarge
        rfl
      · have hlarge := readChain_mono hle hchain'
        rw [hchain] at hlarge
        cases hlarge
        rfl
    rw [← hmagic, ← hsame] at hplain
    exact hplain (List.take_prefix _ _)

theorem not_symlinkRoundTrip {target linkpath : List UInt8} (hne : target ≠ [])
    (hmade : ∃ fuel s', fat32Symlink fuel target linkpath s = some (true, s')) :
    ¬ SymlinkRoundTrip s target linkpath ∧ PlainFilesPlain s := by
  obtain ⟨fuel, s', hlink⟩ := hmade
  exact ⟨fun hround => not_linkReadsBack hne (hround fuel s' hlink), plainFilesPlain s⟩

end

def emptyRoot : Fat32 :=
  tinyVolume (Block.zero.patch 8 (le32 0x0FFFFFFF)) (Block.zero.patch 8 (le32 0x0FFFFFFF)) Block.zero

theorem link_run : ((fat32Symlink 40 (ascii "A") (ascii "/L") emptyRoot).bind fun p =>
      (fat32IsSymlink 40 (ascii "/L") p.2).bind fun q =>
        (fat32ReadSymlink 40 (ascii "/L") 260 p.2).map fun r => (p.1, q.1, r.1)) = some (true, false, 1, ascii "A") := by
  decide +kernel

theorem link_made : ∃ fuel s', fat32Symlink fuel (ascii "A") (ascii "/L") emptyRoot = some (true, s') := by
  obtain ⟨⟨made, s'⟩, hmade, hrest⟩ := Option.bind_eq_some_iff.mp link_run
  obtain ⟨q, -, hrest⟩ := Option.bind_eq_some_iff.mp hrest
  obtain ⟨r, -, hrest⟩ := Option.map_eq_some_iff.mp hrest
  obtain ⟨rfl, -⟩ := Prod.mk.inj hrest
  exact ⟨40, s', hmade⟩

theorem not_symlinkRoundTrip_emptyRoot :
    ¬ SymlinkRoundTrip emptyRoot (ascii "A") (ascii "/L") ∧ PlainFilesPlain emptyRoot :=
  not_symlinkRoundTrip (by decide) link_made

theorem symlinkRoundTrip_fails :
    ¬ ∀ (s : Fat32) (target linkpath : List UInt8), target ≠ [] → target.length ≤ 308 →
      SymlinkRoundTrip s target linkpath := by
  intro hclaim
  obtain ⟨fuel, s', hlink⟩ := link_made
  exact not_linkReadsBack (by decide) (hclaim emptyRoot _ _ (by decide) (by decide) fuel s' hlink)

end Monios.Analysis
