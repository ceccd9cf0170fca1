import Monios.Analysis.FileMediation
import Monios.Model.Syscalls.Dispatch

/-!
# The checks of all operations

`performOperation_mediated` says which operations change only files whose paths have been checked:
the recycle bin works through the calls on files. Links and the calls for backups are not checked;
programs reach the latter from a privilege level on.
-/

set_option autoImplicit false

namespace Monios.Analysis.FileMediation

open Monios.Library Monios.Model.FsCache Monios.Model.FileCalls Monios.Model.FileOperations
open Monios.Model (FsType CString)
open Monios.Library.Traced (Emits Ends)

variable {σ : Type} {env : OperationsEnv σ} {hooks : Hooks} {settings : Settings} {s s₀ : FileState σ}

variable (drive : UInt8)

theorem firstFree_mediates (path : Nat → CString) (rounds suffix : Nat) :
    Mediates env hooks s₀ (firstFree env path rounds suffix) := by
  induction rounds generalizing suffix with
  | zero => exact Emits.pure _
  | succ rounds ih =>
    exact Emits.bind (fileExists_mediates _) fun taken => Emits.ite (fun _ => ih _) fun _ =>
      Emits.pure _

theorem recycleIndexLoad_mediates : Mediates env hooks s₀ (recycleIndexLoad env hooks) := by
  refine Emits.bind (fileExists_mediates _) fun there => Emits.ite (fun _ => Emits.pure _) fun _ =>
    ?_
  exact Emits.bind (fileReadAt_mediates _ _ _) fun _ => Emits.ite (fun _ => Emits.pure _) fun _ =>
    Emits.pure _

section Recycling

variable (hquota : QuotaStays hooks s₀.mounts)
include hquota

theorem recycleIndexSave_mediates (entries : List RecycleEntry) :
    Mediates env hooks s₀ (recycleIndexSave env hooks entries) := by
  apply Emits.ite
  · intro _
    exact Emits.bind (fileWrite_mediates hquota _ _) fun _ => Emits.pure _
  · intro _
    exact Emits.bind (fileWrite_mediates hquota _ _) fun _ => Emits.pure _

theorem fileRecycleRecord_mediates (recycledName originalPath : CString) (size : UInt32) :
    Mediates env hooks s₀ (fileRecycleRecord env hooks settings recycledName originalPath size) := by
  refine Emits.bind recycleIndexLoad_mediates fun entries => ?_
  exact Emits.bind (recycleIndexSave_mediates hquota _) fun _ => Emits.pure _

omit hquota in
theorem recycleDeleteFile_mediates (recycledName : CString) :
    Mediates env hooks s₀ (recycleDeleteFile env hooks drive recycledName) :=
  Emits.bind (fileDelete_mediates _) fun _ => Emits.pure _

omit hquota in
theorem recyclePurge_mediates (entries : List RecycleEntry) :
    Mediates env hooks s₀ (recyclePurge env hooks settings drive entries) := by
  induction entries with
  | nil => exact Emits.pure _
  | cons entry entries ih =>
    apply Emits.ite
    · intro _
      exact Emits.bind (recycleDeleteFile_mediates _ _) fun _ => ih
    · intro _
      exact Emits.bind ih fun _ => Emits.pure _

omit hquota in
theorem recycleCap_mediates (maxBytes rounds : Nat) (entries : List RecycleEntry)
    (liveTotal : Nat) :
    Mediates env hooks s₀ (recycleCap env hooks drive maxBytes rounds entries liveTotal) := by
  induction rounds generalizing entries liveTotal with
  | zero => exact Emits.pure _
  | succ rounds ih =>
    refine Emits.ite (fun _ => ?_) fun _ => Emits.pure _
    exact Emits.bind (recycleDeleteFile_mediates _ _) fun _ => ih _ _

theorem fileRecycleMaintenance_mediates (drive : UInt8) :
    Mediates env hooks s₀ (fileRecycleMaintenance env hooks settings drive) := by
  refine Emits.bind recycleIndexLoad_mediates fun entries => Emits.ite
    (fun _ => Emits.pure _) fun _ => ?_
  refine Emits.bind (recyclePurge_mediates _ _) fun kept => Emits.bind
    (recycleCap_mediates _ _ _ _ _) fun kept => ?_
  exact Emits.bind (recycleIndexSave_mediates hquota _) fun _ => Emits.pure _

omit hquota in
theorem recycleDirectory_mediates : Mediates env hooks s₀ (recycleDirectory env hooks drive) := by
  refine Emits.bind (fileExists_mediates _) fun there => ?_
  refine Emits.bind (Emits.ite (fun _ => Emits.pure _) fun _ => fileMkdir_mediates _) fun _ => ?_
  exact Emits.bind (fileIsDir_mediates _) fun _ => Emits.pure _

theorem recycleCopy_mediates (src dst : CString) :
    Mediates env hooks s₀ (recycleCopy env hooks src dst) := by
  refine Emits.bind (fileSize_mediates src) fun size => Emits.ite (fun _ => Emits.pure _) fun _ =>
    ?_
  refine Emits.bind (fileReadAt_mediates src _ _) fun read => Emits.ite
    (fun _ => Emits.pure _) fun _ => ?_
  exact Emits.bind (fileWrite_mediates hquota dst _) fun _ => Emits.pure _

theorem recycleInto_mediates (resolved candidate : CString) :
    Mediates env hooks s₀ (recycleInto env hooks settings resolved candidate) := by
  refine Emits.bind (recycleCopy_mediates hquota _ _) fun copied => ?_
  cases copied with
  | none => exact Emits.pure _
  | some size =>
    refine Emits.bind (fileDelete_mediates _) fun deleted => Emits.ite (fun _ => ?_) fun _ => ?_
    · exact Emits.bind (fileDelete_mediates _) fun _ => Emits.pure _
    · refine Emits.bind (fileRecycleRecord_mediates hquota _ _ _) fun _ => ?_
      exact Emits.bind (fileRecycleMaintenance_mediates hquota _) fun _ => Emits.pure _

theorem fileSendToRecycleBin_mediates (path : CString) :
    Mediates env hooks s₀ (fileSendToRecycleBin env hooks settings path) := by
  refine Emits.bind (mediates_of_leads fun s hs => (resolvePath_leads hs path).mono fun _ _ h => h.1) fun r => ?_
  cases r with
  | none => exact Emits.pure _
  | some found =>
    refine Emits.bind (fileIsDir_mediates _) fun dir => Emits.ite (fun _ => Emits.pure _) fun _ =>
      ?_
    refine Emits.bind (recycleDirectory_mediates _) fun recycleDir => ?_
    cases recycleDir with
    | none => exact Emits.pure _
    | some recycleDir =>
      refine Emits.bind ?_ fun candidate => ?_
      · exact Emits.bind (fileExists_mediates _) fun _ => Emits.ite
          (fun _ => firstFree_mediates _ _ _) fun _ => Emits.pure _
      · cases candidate with
        | none => exact Emits.pure _
        | some candidate => exact recycleInto_mediates hquota _ _

theorem fileRestoreFromRecycleBin_mediates (recycledPath originalPath : CString) :
    Mediates env hooks s₀ (fileRestoreFromRecycleBin env hooks recycledPath originalPath) := by
  refine Emits.bind (fileExists_mediates _) fun taken => Emits.ite (fun _ => Emits.pure _) fun _ =>
    ?_
  refine Emits.bind (recycleCopy_mediates hquota _ _) fun copied => ?_
  cases copied with
  | none => exact Emits.pure _
  | some size => exact fileDelete_mediates _

omit hquota in
theorem fileEmptyRecycleBin_mediates :
    Mediates env hooks s₀ (fileEmptyRecycleBin env hooks drive) := by
  have hentry (full : CString) (isDir : Bool) : Mediates env hooks s₀ (fileEmptyRecycleEntry env hooks full isDir) :=
    Emits.bind (Emits.ite (fun _ => fileRmdir_mediates full) fun _ => fileDelete_mediates full) fun _ => Emits.pure _
  have hwalk (dir : CString) (names : List (List UInt8 × Bool)) :
      Mediates env hooks s₀ (walkFrom dir (fileEmptyRecycleEntry env hooks) names) := by
    induction names with
    | nil => exact Emits.pure _
    | cons name names ih => exact Emits.bind (hentry _ _) fun _ => ih
  refine Emits.bind ?_ fun _ => Emits.pure _
  refine Emits.bind (fileIsDir_mediates _) fun ok => Emits.ite (fun _ => Emits.pure _) fun _ => ?_
  exact Emits.bind (fileListDir_mediates _ _) fun listed => Emits.ite
    (fun _ => Emits.pure _) fun _ => hwalk _ _

omit hquota in
theorem restoreTarget_mediates (dir : Nat) (stem : List UInt8) (dot : Option Nat)
    (rounds suffix : Nat) (target : List UInt8) :
    Mediates env hooks s₀ (restoreTarget env dir stem dot rounds suffix target) := by
  induction rounds generalizing suffix target with
  | zero => exact Emits.pure _
  | succ rounds ih =>
    exact Emits.bind (fileExists_mediates _) fun taken => Emits.ite (fun _ => ih _ _) fun _ =>
      Emits.pure _

theorem fileRecycleRestoreByName_mediates (recycledName : CString) :
    Mediates env hooks s₀ (fileRecycleRestoreByName env hooks recycledName) := by
  refine Emits.bind recycleIndexLoad_mediates fun entries => ?_
  split
  · exact Emits.pure _
  refine Emits.bind (fileExists_mediates _) fun there => Emits.ite (fun _ => Emits.pure _) fun _ =>
    ?_
  refine Emits.bind ?_ fun target => ?_
  · refine Emits.bind (fileExists_mediates _) fun taken => Emits.ite
      (fun _ => Emits.pure _) fun _ => ?_
    exact Emits.bind (restoreTarget_mediates _ _ _ _ _ _) fun _ => Emits.pure _
  refine Emits.bind (fileRestoreFromRecycleBin_mediates hquota _ _) fun restored => Emits.ite
    (fun _ => Emits.pure _) fun _ => ?_
  refine Emits.bind recycleIndexLoad_mediates fun entries => ?_
  exact Emits.bind (recycleIndexSave_mediates hquota _) fun _ => Emits.pure _

end Recycling

/-- The operations that check the path they change: they change files by paths, other than by a
link, their quota checks stay on the volume, and a rename inside a file system is one inside a
volume. -/
def Covered (hooks : Hooks) (mounts : Fin 8 → Mount) : Operation → Prop
  | .delete _ | .mkdir _ | .rmdir _ | .setAttr _ _ _ | .emptyRecycleBin _ => True
  | .rename oldpath newpath => QuotaStays hooks mounts ∧ RenameStays mounts oldpath newpath
  | .symlink _ _ | .backupBegin _ | .backupAppend _ | .backupEnd | .backupWriteSrc _ _ _ => False
  | _ => QuotaStays hooks mounts

theorem truth_mediates {m : FileM σ Bool} (hm : Mediates env hooks s₀ m) :
    Mediates env hooks s₀ (truth <$> m) := by
  intro s hs
  exact ⟨(hm s hs).1, fun _ _ => trivial⟩

/-- A covered operation changes only files whose paths have been checked.  The calls for backups are
not for programs above level R2. -/
theorem performOperation_mediated (env : OperationsEnv σ) (hooks : Hooks) (settings : Settings)
    (s : FileState σ) :
    (∀ op, Covered hooks s.mounts op →
      Mediated env hooks s ((performOperation env hooks settings op).state s)) ∧
      ∀ (w : Model.Syscalls.SysWorld) (op ba bb bc bd : UInt64), Model.execPrivR2 <
      w.privilegeLevel →
        Model.Syscalls.sysBackupCtl op ba bb bc bd w = (Model.Syscalls.fail, w, []) := by
  refine ⟨fun op hop => ?_, fun w op ba bb bc bd hlevel => ?_⟩
  · have hdo {α : Type} {m : FileM σ α} (hm : Mediates env hooks s m) : Mediated env hooks s (m.state s) := (hm s .refl).1
    cases op with
    | write path data => exact hdo (fileWrite_mediates hop path data.val)
    | delete path => exact hdo (truth_mediates (fileDelete_mediates path))
    | rename oldpath newpath => exact hdo (truth_mediates (fileRename_mediates hop.1 hop.2))
    | mkdir path => exact hdo (truth_mediates (fileMkdir_mediates path))
    | rmdir path => exact hdo (truth_mediates (fileRmdir_mediates path))
    | setAttr path attrMask attrValue =>
      exact hdo (truth_mediates (fileSetAttr_mediates path attrMask attrValue))
    | sendToRecycleBin path => exact hdo (truth_mediates (fileSendToRecycleBin_mediates hop path))
    | restoreFromRecycleBin recycledPath originalPath =>
      exact hdo (truth_mediates (fileRestoreFromRecycleBin_mediates hop recycledPath originalPath))
    | emptyRecycleBin drive => exact hdo (truth_mediates (fileEmptyRecycleBin_mediates drive))
    | recycleRecord recycledName originalPath size =>
      exact hdo (Emits.bind (fileRecycleRecord_mediates hop recycledName originalPath size) fun _ => Emits.pure _)
    | recycleMaintenance drive => exact hdo (Emits.bind (fileRecycleMaintenance_mediates hop drive) fun _ => Emits.pure _)
    | recycleRestoreByName recycledName =>
      exact hdo (fileRecycleRestoreByName_mediates hop recycledName)
    | symlink | backupBegin | backupAppend | backupEnd | backupWriteSrc => exact hop.elim
  · unfold Model.Syscalls.sysBackupCtl
    rw [Traced.reads_bind, if_pos hlevel]
    rfl

structure Disk where
  served : Int
  changed : List (Int × Path) := []

def Disk.note (x : Disk) (p : Path) : Disk := { x with changed := x.changed ++ [(x.served, p)] }

def noting : OperationsEnv Disk where
  driver _ :=
    { isSymlink _ x := (false, x)
      readSymlink _ _ x := ((-1, []), x)
      isPresent _ x := (false, x)
      isDir _ x := (false, x)
      fileSize _ x := (0, x)
      readFileAt _ _ _ x := (0, [], x)
      writeFile p data x := (data.length, x.note p)
      delete p x := (true, x.note p)
      rename p q x := (true, (x.note p).note q)
      space x := (some (1, 1), x) }
  init _ partition _ x := (true, { x with served := partition })
  kmalloc _ x := (true, x)
  flushers _ _ _ _ x := (-1, x)
  mkdir _ p x := (true, x.note p)
  rmdir _ p x := (true, x.note p)
  listDir _ _ _ x := ((false, []), x)
  fat32SetAttr p _ _ x := (true, x.note p)
  fat32Symlink _ p x := (true, x.note p)
  fat32AppendOpen p x := (0, x.note p)
  fat32AppendWrite data x := (data.length, x.note [])
  fat32AppendClose x := (0, x.note [])
  fat32VolumeGeometry x := (some 1, x)
  fat32WriteVolume _ _ _ x := (true, x.note [])

structure Allowed (hooks : Hooks) (s : FileState Disk) : Prop where
  served : s.cache.machine.served = s.currentMountPartition
  partitions : ∀ k, 0 ≤ (s.mounts k).partition
  changed : ∀ e ∈ s.cache.machine.changed, ∃ resolved k, fileAllowed hooks resolved true = true ∧
    findMountPoint s.mounts resolved = some k ∧ e.1 = (s.mounts k).partition ∧
    filePathToBackend (makeRelativePath resolved (s.mounts k).path) = some e.2

theorem change_noting {type : FsType} {paths : List Path} {f : Disk → Disk}
    (h : Change noting type paths f) (x : Disk) :
    f x = { x with changed := x.changed ++ paths.map fun p => (x.served, p) } := by
  cases h with
  | rename type p q =>
    change ({ x with changed := x.changed ++ [(x.served, p)] ++ [(x.served, q)] } : Disk) = _
    rw [List.append_assoc]
    rfl
  | _ => rfl

theorem Allowed.switch {s : FileState Disk} (h : Allowed hooks s) (k : Fin 8) :
    Leads (fun _ t => Allowed hooks t) (switchToMount noting.toEnv k) s := by
  unfold switchToMount
  apply Ends.reads_bind
  dsimp only [id]
  apply Ends.ite
  · intro _
    exact Ends.pure trivial h
  intro _
  apply Ends.ite
  · rintro ⟨-, hpartition, -⟩
    exact ⟨trivial, h.served.trans hpartition, h.partitions, h.changed⟩
  intro _
  have hinit : Leads (fun ok t => (ok = false ∧ t = s) ∨
      (ok = true ∧ t = withMachine s { s.cache.machine with served := (s.mounts k).partition }))
      (fsInitByType noting.toEnv (s.mounts k).fsType (s.mounts k).partition (s.mounts k).blockdevIndex) s := by
    unfold fsInitByType
    apply Ends.reads_bind
    apply Ends.ite
    · intro _
      exact Ends.pure trivial (Or.inl ⟨rfl, rfl⟩)
    · intro _
      have hhint : fileMountPartitionHint s.mounts (s.mounts k).partition =
          (s.mounts k).partition := if_pos (h.partitions k)
      exact ⟨trivial, Or.inr ⟨rfl, congrArg (fun p => withMachine s { s.cache.machine with served := p }) hhint⟩⟩
  apply hinit.bind
  rintro ok t (⟨rfl, rfl⟩ | ⟨rfl, rfl⟩)
  · exact Ends.pure trivial h
  · exact ⟨trivial, rfl, h.partitions, h.changed⟩

theorem Allowed.step {s t : FileState Disk} (h : Allowed hooks s) (hstep : Step noting hooks s t) :
    Allowed hooks t := by
  cases hstep with
  | query s hquery => cases hquery <;> exact h
  | writeBack => exact h
  | slots s c hmachine =>
    refine ⟨?_, h.partitions, ?_⟩
    · change c.machine.served = _
      rw [hmachine]
      exact h.served
    · change ∀ e ∈ c.machine.changed, _
      rw [hmachine]
      exact h.changed
  | switch s k =>
    exact (h.switch k).2
  | change s hchange hpaths =>
    refine ⟨?_, h.partitions, ?_⟩
    · rw [change_noting hchange]
      exact h.served
    · rw [change_noting hchange]
      intro e he
      rcases List.mem_append.mp he with he | he
      · exact h.changed e he
      · obtain ⟨p, hp, rfl⟩ := List.mem_map.mp he
        obtain ⟨resolved, k, hallowed, hfind, hk, hbackend⟩ := hpaths p hp
        exact ⟨resolved, k, hallowed, hfind, h.served.trans hk.2.1, hbackend⟩

theorem Allowed.mediated {s t : FileState Disk} (h : Allowed hooks s)
    (hst : Mediated noting hooks s t) : Allowed hooks t := by
  induction hst with
  | refl => exact h
  | tail _ hstep ih => exact ih.step hstep

def threeMounts : Fin 8 → Mount := fun i =>
  if i.val = 0 then ⟨⟨true, .fat32, 0, 0⟩, Model.ascii "C:\\"⟩
  else if i.val = 1 then ⟨⟨true, .fat32, 1, 0⟩, Model.ascii "D:\\"⟩
  else if i.val = 2 then ⟨⟨true, .fat32, 2, 0⟩, Model.ascii "C:\\m"⟩
  else ⟨⟨false, .none, 0, 0⟩, []⟩

def mountedThree : FileState Disk where
  cache := { machine := { served := 0 }, configuredSlots := 16 }
  mounts := threeMounts
  currentFs := .fat32
  currentMountPath := Model.ascii "C:\\"
  currentMountPartition := 0
  currentBlockdev := 0

theorem allowed_mountedThree (hooks : Hooks) : Allowed hooks mountedThree :=
  ⟨rfl, by decide, fun _ he => absurd he List.not_mem_nil⟩

def allowOnly (paths : List Path) (quota : Nat) : Hooks :=
  { uacAccess := some fun path _ => paths.contains path
    quotaLimit := fun _ => quota }

def newYear : Settings := { now := ⟨2026, 1, 1⟩ }

def afterOperation (hooks : Hooks) (op : Operation) : FileState Disk :=
  (performOperation noting hooks newYear op).state mountedThree

def plainProgram : Model.Syscalls.SysWorld where
  memory := fun _ => 0
  swBp := []
  privilegeLevel := 3
  imageFlags := 0
  cwd := bufferString []
  programPath := []
  home := none
  oracle := fun _ _ => ({}, id)
  calls := 0

theorem performOperation_mediated_rename :
    Mediated noting (allowOnly [Model.ascii "C:\\a"] 0) mountedThree (afterOperation (allowOnly [Model.ascii "C:\\a"] 0)
        (.rename (bufferString (Model.ascii "C:\\a")) (bufferString (Model.ascii "C:\\b")))) ∧
      Model.Syscalls.sysBackupCtl 4 0 0 0 0 plainProgram =
      (Model.Syscalls.fail, plainProgram, []) := by
  have hclaim := performOperation_mediated noting (allowOnly [Model.ascii "C:\\a"] 0) newYear mountedThree
  refine ⟨hclaim.1 _ ⟨fun _ _ _ hlimit => absurd rfl hlimit, ?_⟩,
    hclaim.2 plainProgram 4 0 0 0 0 (by decide)⟩
  have hold : target threeMounts (bufferString (Model.ascii "C:\\a")) = some (0, Model.ascii "C:\\a", Model.ascii "a") := by
    decide
  have hnew : target threeMounts (bufferString (Model.ascii "C:\\b")) = some (0, Model.ascii "C:\\b", Model.ascii "b") := by
    decide
  intro k found l found' hk hl _
  obtain ⟨rfl, -⟩ := Prod.mk.inj (Option.some.inj (hold.symm.trans hk))
  obtain ⟨rfl, -⟩ := Prod.mk.inj (Option.some.inj (hnew.symm.trans hl))
  exact ⟨rfl, rfl, rfl⟩

theorem not_mediated_of_changed (e : Int × Path) (paths : List Path) (quota : Nat) (op : Operation)
    (he : e ∈ (afterOperation (allowOnly paths quota) op).cache.machine.changed)
    (hpaths : ∀ resolved ∈ paths, ∀ k, findMountPoint threeMounts resolved = some k →
      e.1 = (threeMounts k).partition →
      filePathToBackend (makeRelativePath resolved (threeMounts k).path) ≠ some e.2) :
    ¬ Mediated noting (allowOnly paths quota) mountedThree
    (afterOperation (allowOnly paths quota) op) := by
  intro hmediated
  have hallowed := (allowed_mountedThree _).mediated hmediated
  have hmounts : (afterOperation (allowOnly paths quota) op).mounts = threeMounts :=
    hmediated.mounts
  obtain ⟨resolved, k, hresolved, hfind, hpartition, hbackend⟩ := hallowed.changed e he
  rw [hmounts] at hfind hpartition hbackend
  have hmem : resolved ∈ paths := by
    unfold fileAllowed fileUacAllow at hresolved
    simpa [allowOnly] using hresolved
  exact hpaths resolved hmem k hfind hpartition hbackend

/-- What the checks would have to refuse: a volume is written, a link is created, a file is renamed
onto another volume of the same type, and a file is written while its drive has a quota. -/
theorem not_performOperation_mediated :
    ¬ Mediated noting (allowOnly [] 0) mountedThree
      (afterOperation (allowOnly [] 0) (.backupWriteSrc 0 1 [])) ∧
      ¬ Mediated noting (allowOnly [] 0) mountedThree
        (afterOperation (allowOnly [] 0) (.symlink (bufferString [0x78]) (bufferString (Model.ascii "C:\\l")))) ∧
      ¬ Mediated noting (allowOnly [Model.ascii "C:\\a", Model.ascii "D:\\b"] 0) mountedThree
        (afterOperation (allowOnly [Model.ascii "C:\\a", Model.ascii "D:\\b"] 0)
          (.rename (bufferString (Model.ascii "C:\\a")) (bufferString (Model.ascii "D:\\b")))) ∧
      ¬ Mediated noting (allowOnly [Model.ascii "C:\\m\\x"] 100) mountedThree
        (afterOperation (allowOnly [Model.ascii "C:\\m\\x"] 100)
          (.write (bufferString (Model.ascii "C:\\m\\x")) ⟨[1], by decide⟩)) := by
  refine ⟨?_, ?_, ?_, ?_⟩
  · exact not_mediated_of_changed (0, []) _ _ _ (by decide) nofun
  · exact not_mediated_of_changed (0, Model.ascii "l") _ _ _ (by decide) nofun
  · exact not_mediated_of_changed (1, Model.ascii "a") _ _ _ (by decide +kernel) (by decide +kernel)
  · exact not_mediated_of_changed (0, Model.ascii "/x") _ _ _ (by decide +kernel) (by decide)

end Monios.Analysis.FileMediation
