import Monios.Analysis.PathResolution
import Monios.Model.Fat32.Directory
import Monios.Model.FsPerm

/-!
# Permissions of files and of spellings

The table of permissions is looked up by canonical text, and a FAT volume by names without regard to
letter case. Two spellings of one file get the same decisions out of every table just when both are
refused, or neither is and the names they lead to have the same letter case.
-/

set_option autoImplicit false

namespace Monios.Analysis.FilePermissions

open Monios.Model
open Monios.Library
open Monios.Analysis.PathResolution

def visit (stack : List (List UInt8)) (name : List UInt8) : List (List UInt8) :=
  if name = dot then stack else if name = dotDot then stack.dropLast else stack ++ [name]

def unify (path : List UInt8) : List UInt8 :=
  path.map fun b => if b = 0x2F then pathSeparator else b

def fileStack (path : CString) : List (List UInt8) :=
  (names (unify (pathAfterDrivePrefix path.val))).foldl visit []

def fileDrive (path : CString) : UInt8 := pathDriveFor path.val 0x43

structure SameFile (p q : CString) : Prop where
  drive : fileDrive p = fileDrive q
  names : List.Forall₂ (fun a b => strcasecmpBytesEq a b = true) (fileStack p) (fileStack q)

theorem upperChar_lower (ch : UInt8) :
    upperChar (if 0x41 ≤ ch && ch ≤ 0x5A then ch + 0x20 else ch) = upperChar ch := by
  have hall : ∀ n : Fin 256, upperChar (if 0x41 ≤ UInt8.ofFin n && UInt8.ofFin n ≤ 0x5A then UInt8.ofFin n + 0x20
      else UInt8.ofFin n) = upperChar (UInt8.ofFin n) := by decide +kernel
  exact hall ch.toFin

theorem lower_eq_dot (ch : UInt8) :
    (if 0x41 ≤ ch && ch ≤ 0x5A then ch + 0x20 else ch) = 0x2E ↔ ch = 0x2E := by
  have hall : ∀ n : Fin 256, (if 0x41 ≤ UInt8.ofFin n && UInt8.ofFin n ≤ 0x5A then UInt8.ofFin n + 0x20
      else UInt8.ofFin n) = 0x2E ↔ UInt8.ofFin n = 0x2E := by decide +kernel
  exact hall ch.toFin

theorem fat32FormatFrom_congr {a b : List UInt8} (h : strcasecmpBytesEq a b = true) (j : Nat)
    (out : Block 11) :
    fat32FormatFrom a j out = fat32FormatFrom b j out := by
  unfold strcasecmpBytesEq at h
  replace h := eq_of_beq h
  induction a generalizing b j out with
  | nil =>
    cases b with
    | nil => rfl
    | cons y b => simp at h
  | cons x a ih =>
    cases b with
    | nil => simp at h
    | cons y b =>
      simp only [List.map_cons, List.cons.injEq] at h
      obtain ⟨hxy, hab⟩ := h
      have hdot : x = 0x2E ↔ y = 0x2E := by rw [← lower_eq_dot x, ← lower_eq_dot y, hxy]
      have hupper : upperChar x = upperChar y := by rw [← upperChar_lower, ← upperChar_lower y, hxy]
      simp only [fat32FormatFrom, hdot, hupper, fun k o => ih k o hab]

theorem unify_eq {path : List UInt8} (h : (0x2F : UInt8) ∉ path) : unify path = path := by
  unfold unify
  conv_rhs => rw [← List.map_id path]
  apply List.map_congr_left
  intro b hb
  have hne : b ≠ 0x2F := by
    rintro rfl
    exact h hb
  simp [hne]

theorem foldl_visit_of_walk {outputSize : Nat} {stack stack' : List (List UInt8)}
    {path : List UInt8} (h : walk outputSize stack path = some stack') :
    (names path).foldl visit stack = stack' := by
  unfold walk at h
  generalize names path = rest at h
  induction rest generalizing stack with
  | nil =>
    cases h
    rfl
  | cons name rest ih =>
    rw [List.foldlM_cons] at h
    obtain ⟨middle, hstep, hrest⟩ := Option.bind_eq_some_iff.mp h
    have hvisit : visit stack name = middle := by
      rw [enter_eq] at hstep
      unfold visit
      split at hstep
      · cases hstep
      split at hstep
      · next hdot =>
        cases hstep
        exact if_pos hdot
      next hdot =>
      rw [if_neg hdot]
      split at hstep
      · next hdotDot =>
        cases hstep
        exact if_pos hdotDot
      next hdotDot =>
      rw [if_neg hdotDot]
      split at hstep
      · cases hstep
      split at hstep
      · cases hstep
      cases hstep
      rfl
    rw [List.foldl_cons, hvisit]
    exact ih hrest

theorem canonical_of_fsPermCanonical {path : CString} {text : List UInt8}
    (h : fsPermCanonical path = some text) :
    Canonical fsPermPathSize (fileDrive path) (fileStack path) text := by
  unfold fsPermCanonical at h
  split at h
  · obtain ⟨stack, hwalks, hcanonical⟩ := canonical_of_pathResolve h
    have hslash : (0x2F : UInt8) ∉ path.val := by
      rw [pathResolve_eq] at h
      split at h
      · cases h
      next hcheck =>
      rw [not_or, not_or] at hcheck
      exact hcheck.2.1
    have hroot : walk fsPermPathSize [] (directoryOf pathRootBytes.val path.val) = some [] := by
      unfold directoryOf
      split
      · rfl
      · decide +kernel
    rw [hroot, Option.bind_some] at hwalks
    have hstack : fileStack path = stack := by
      unfold fileStack
      rw [unify_eq (notMem_pathAfterDrivePrefix hslash)]
      exact foldl_visit_of_walk hwalks
    have hdrive : driveOf pathRootBytes.val path.val = fileDrive path := by
      unfold driveOf fileDrive pathDriveFor
      split
      · rfl
      · decide
    rw [hstack, ← hdrive]
    exact hcanonical
  · cases h

inductive Reached : FsPerm → Prop
  | init : Reached {}
  | set {s s' : FsPerm} {path : CString} {mode uid gid : UInt32} (h : Reached s)
      (hset : fsPermSet s path mode uid gid = some s') : Reached s'

def Agree (s : FsPerm) (p q : CString) : Prop :=
  ∀ (current : Option PermUser) (wantWrite wantExec : Bool),
    fsPermCheck s current p wantWrite wantExec = fsPermCheck s current q wantWrite wantExec

section

variable {s : FsPerm} {p q : CString} {text other : List UInt8}

theorem agree_of_canonical (h : fsPermCanonical p = fsPermCanonical q) : Agree s p q := by
  intro current wantWrite wantExec
  unfold fsPermCheck fsPermGet
  rw [h]

theorem find_single {f : PermSlot → Bool} (hother : ∀ i, i ≠ 0 → f i = false) :
    (List.finRange 128).find? f = if f 0 then some 0 else none := by
  cases hfind : (List.finRange 128).find? f with
  | none =>
    have h0 := List.find?_eq_none.mp hfind 0 (List.mem_finRange 0)
    rw [if_neg h0]
  | some i =>
    have hi := List.find?_some hfind
    by_cases h0 : i = 0
    · rw [h0] at hi ⊢
      rw [if_pos hi]
    · rw [hother i h0] at hi
      cases hi

theorem fsPermFind_empty (path : List UInt8) : fsPermFind {} path = none := by
  unfold fsPermFind
  rw [List.find?_eq_none]
  intro i _
  simp

def denied (text : List UInt8) : FsPerm :=
  { table := Function.update (fun _ => {}) 0 { used := true, pathHash := fsPermDjb2 text, path := text } }

theorem fsPermSet_denied (h : fsPermCanonical p = some text) :
    fsPermSet {} p 0 0 0 = some (denied text) := by
  have hfree : ((List.finRange 128).find? fun i => !(({} : FsPerm).table i).used) = some 0 := rfl
  unfold fsPermSet
  rw [h, Option.bind_some, fsPermFind_empty]
  simp only [hfree, Option.map_some]
  rfl

theorem fsPermFind_denied (text path : List UInt8) :
    fsPermFind (denied text) path = if path = text then some 0 else none := by
  unfold fsPermFind
  rw [find_single]
  · by_cases hpath : path = text
    · simp [denied, hpath]
    · have hne : text ≠ path := Ne.symm hpath
      simp [denied, hpath, hne]
  · intro i hi
    simp [denied, hi]

def reader : PermUser := ⟨1000, 1000⟩

theorem fsPermCheck_denied (hp : fsPermCanonical p = some text) :
    fsPermCheck (denied text) (some reader) p false false = false := by
  unfold fsPermCheck fsPermGet
  rw [hp, Option.map_some, fsPermFind_denied, if_pos rfl]
  simp [denied, reader]

theorem fsPermCheck_default (hp : fsPermCanonical p = some other)
    (hfind : fsPermFind s other = none) (hsaving : s.saving = false) :
    fsPermCheck s (some reader) p false false = true := by
  unfold fsPermCheck fsPermGet
  rw [hp, Option.map_some, hfind, hsaving]
  rfl

theorem fsPermCheck_refused (hp : fsPermCanonical p = none) (hsaving : s.saving = false) :
    fsPermCheck s (some reader) p false false = false := by
  unfold fsPermCheck fsPermGet
  rw [hp, Option.map_none, hsaving]
  rfl

theorem exists_disagree_of_some (hp : fsPermCanonical p = some text)
    (hne : fsPermCanonical p ≠ fsPermCanonical q) :
    ∃ s, Reached s ∧ ¬ Agree s p q := by
  cases hq : fsPermCanonical q with
  | none =>
    refine ⟨{}, .init, fun hagree => ?_⟩
    have h := hagree (some reader) false false
    rw [fsPermCheck_default hp (fsPermFind_empty text) rfl, fsPermCheck_refused hq rfl] at h
    cases h
  | some other =>
    have hother : other ≠ text := by
      rintro rfl
      exact hne (hp.trans hq.symm)
    refine ⟨denied text, .set .init (fsPermSet_denied hp), fun hagree => ?_⟩
    have h := hagree (some reader) false false
    have hfind : fsPermFind (denied text) other = none := by rw [fsPermFind_denied, if_neg hother]
    rw [fsPermCheck_denied hp, fsPermCheck_default hq hfind rfl] at h
    cases h

theorem exists_disagree (hne : fsPermCanonical p ≠ fsPermCanonical q) :
    ∃ s, Reached s ∧ ¬ Agree s p q := by
  cases hp : fsPermCanonical p with
  | some text => exact exists_disagree_of_some hp hne
  | none =>
    cases hq : fsPermCanonical q with
    | none => exact absurd (hp.trans hq.symm) hne
    | some text =>
      obtain ⟨s, hs, hnot⟩ := exists_disagree_of_some hq (Ne.symm hne)
      exact ⟨s, hs, fun hagree => hnot fun current w x => (hagree current w x).symm⟩

theorem fsPermCanonical_eq_iff (h : fileDrive p = fileDrive q) :
    fsPermCanonical p = fsPermCanonical q ↔
      ((fsPermCanonical p).isSome ↔ (fsPermCanonical q).isSome) ∧
        ((fsPermCanonical p).isSome → fileStack p = fileStack q) := by
  cases hp : fsPermCanonical p with
  | none =>
    cases hq : fsPermCanonical q with
    | none => simp
    | some _ => simp
  | some text =>
    cases hq : fsPermCanonical q with
    | none => simp
    | some other =>
      have htext := canonical_of_fsPermCanonical hp
      have hother := canonical_of_fsPermCanonical hq
      simp only [Option.some.injEq, Option.isSome_some, true_and, forall_const]
      constructor
      · rintro rfl
        rw [← htext.parts.2.2.2, ← hother.parts.2.2.2]
      · intro hstack
        rw [htext.eq, hother.eq, h, hstack]

end

/-- Two spellings of one file are decided alike by every table, or by every table the program can
have, if and only if both are refused, or neither is and they lead to the same names in the same
letter case. -/
theorem fsPermCheck_agree_iff (p q : CString) (h : SameFile p q) : ((∀ s, Agree s p q) ↔
      ((fsPermCanonical p).isSome ↔ (fsPermCanonical q).isSome) ∧
        ((fsPermCanonical p).isSome → fileStack p = fileStack q)) ∧
        ((∀ s, Reached s → Agree s p q) ↔
      ((fsPermCanonical p).isSome ↔ (fsPermCanonical q).isSome) ∧
        ((fsPermCanonical p).isSome → fileStack p = fileStack q)) := by
  rw [← fsPermCanonical_eq_iff h.drive]
  refine ⟨⟨fun hall => ?_, fun heq s => agree_of_canonical heq⟩, fun hall => ?_,
    fun heq s _ => agree_of_canonical heq⟩
  · by_contra hne
    obtain ⟨s, -, hnot⟩ := exists_disagree hne
    exact hnot (hall s)
  · by_contra hne
    obtain ⟨s, hs, hnot⟩ := exists_disagree hne
    exact hnot (hall s hs)

def privateFile : CString := ⟨ascii "C:\\private", by decide⟩

def privateDetour : CString := ⟨ascii "c:\\folder\\..\\private", by decide⟩

def privateUpper : CString := ⟨ascii "C:\\PRIVATE", by decide⟩

theorem fsPermCheck_agree_detour :
    SameFile privateFile privateDetour ∧ ∀ s, Agree s privateFile privateDetour := by
  have hstack : fileStack privateFile = fileStack privateDetour := by decide +kernel
  have hsame : SameFile privateFile privateDetour := by
    refine ⟨by decide +kernel, ?_⟩
    rw [hstack]
    decide +kernel
  have hsome : (fsPermCanonical privateFile).isSome ∧ (fsPermCanonical privateDetour).isSome := by
    decide
  refine ⟨hsame, (fsPermCheck_agree_iff _ _ hsame).1.mpr ⟨?_, fun _ => hstack⟩⟩
  simp only [hsome.1, hsome.2]

theorem fsPermCheck_bypassed : SameFile privateFile privateUpper ∧
      ∃ s, Reached s ∧ fsPermCheck s (some reader) privateFile false false = false ∧
        fsPermCheck s (some reader) privateUpper false false = true := by
  have hp : fsPermCanonical privateFile = some (ascii "C:\\private") := by decide +kernel
  have hq : fsPermCanonical privateUpper = some (ascii "C:\\PRIVATE") := by decide +kernel
  refine ⟨⟨by decide +kernel, by decide +kernel⟩, denied (ascii "C:\\private"), .set .init (fsPermSet_denied hp),
    fsPermCheck_denied hp, fsPermCheck_default hq ?_ rfl⟩
  rw [fsPermFind_denied, if_neg (by decide)]

end Monios.Analysis.FilePermissions
