import Monios.Analysis.CacheMachine
import Monios.Model.FileOperations

/-!
# The checks before a change

The file layer as a monitor of the drivers. What it does is cut into steps, and a step that changes
files is one that the monitor lets through: the checks of the user and of the permissions allow a
canonical path, and it is the path of the file that the driver is told to change, on the volume that
the driver serves.
-/

set_option autoImplicit false

namespace Monios.Analysis.FileMediation

open Monios.Library Monios.Model.FsCache Monios.Model.FileCalls Monios.Model.FileOperations
open Monios.Model (FsType CString)
open Monios.Library.Traced (Emits Ends)

variable {σ : Type} {env : OperationsEnv σ} {hooks : Hooks} {s s₀ t : FileState σ}

/-- The mount point is the one that `switch_to_mount` has switched to. -/
def Current (s : FileState σ) (k : Fin 8) : Prop :=
  s.currentFs = (s.mounts k).fsType ∧ s.currentMountPartition = (s.mounts k).partition ∧
    s.currentBlockdev = (s.mounts k).blockdevIndex

def withMachine (s : FileState σ) (y : σ) : FileState σ :=
  { s with cache := { s.cache with machine := y } }

/-- The mount point, the canonical path and the path in the file system that a path leads to. -/
def target (mounts : Fin 8 → Mount) (path : CString) : Option (Fin 8 × Path × Path) :=
  (Model.pathResolve Model.pathRootBytes path Model.pathMaxLen).bind fun resolved =>
    (findMountPoint mounts resolved).bind fun k =>
      (filePathToBackend (makeRelativePath resolved (mounts k).path)).map fun backend => (k, resolved, backend)

inductive Query (env : OperationsEnv σ) : (σ → σ) → Prop
  | isSymlink (type : FsType) (p : Path) : Query env fun x => ((env.driver type).isSymlink p x).2
  | readSymlink (type : FsType) (p : Path) (n : Nat) : Query env fun x =>
    ((env.driver type).readSymlink p n x).2
  | isPresent (type : FsType) (p : Path) : Query env fun x => ((env.driver type).isPresent p x).2
  | isDir (type : FsType) (p : Path) : Query env fun x => ((env.driver type).isDir p x).2
  | fileSize (type : FsType) (p : Path) : Query env fun x => ((env.driver type).fileSize p x).2
  | readFileAt (type : FsType) (p : Path) (offset size : Nat) :
      Query env fun x => ((env.driver type).readFileAt p offset size x).2.2
  | space (type : FsType) : Query env fun x => ((env.driver type).space x).2
  | listDir (type : FsType) (p : Path) (n : Nat) : Query env fun x => (env.listDir type p n x).2
  | volumeGeometry : Query env fun x => (env.fat32VolumeGeometry x).2
  | kmalloc (n : Nat) : Query env fun x => (env.kmalloc n x).2

/-- What the drivers do to files, and the paths of the files.  What is appended to an image and what
is written to a volume is told by no path. -/
inductive Change (env : OperationsEnv σ) : FsType → List Path → (σ → σ) → Prop
  | write (type : FsType) (p : Path) (data : List UInt8) :
      Change env type [p] fun x => ((env.driver type).writeFile p data x).2
  | delete (type : FsType) (p : Path) : Change env type [p] fun x =>
    ((env.driver type).delete p x).2
  | rename (type : FsType) (p q : Path) : Change env type [p, q] fun x =>
    ((env.driver type).rename p q x).2
  | mkdir (type : FsType) (p : Path) : Change env type [p] fun x => (env.mkdir type p x).2
  | rmdir (type : FsType) (p : Path) : Change env type [p] fun x => (env.rmdir type p x).2
  | setAttr (p : Path) (attrMask attrValue : UInt8) :
      Change env .fat32 [p] fun x => (env.fat32SetAttr p attrMask attrValue x).2
  | symlink (target : CString) (p : Path) : Change env .fat32 [p] fun x =>
    (env.fat32Symlink target p x).2
  | appendOpen (p : Path) : Change env .fat32 [p] fun x => (env.fat32AppendOpen p x).2

/-- The checks allow to write a canonical path, and its file is the one with this path in the
current file system. -/
def Checked (hooks : Hooks) (s : FileState σ) (backend : Path) : Prop :=
  ∃ resolved k, fileAllowed hooks resolved true = true ∧ findMountPoint s.mounts resolved = some k ∧ Current s k ∧
    filePathToBackend (makeRelativePath resolved (s.mounts k).path) = some backend

inductive Step (env : OperationsEnv σ) (hooks : Hooks) : FileState σ → FileState σ → Prop
  | query {f : σ → σ} (s : FileState σ) (h : Query env f) : Step env hooks s (withMachine s (f s.cache.machine))
  | writeBack (s : FileState σ) (flusher : Nat) (path : Path) (offset : Nat) (data : List UInt8) :
      Step env hooks s (withMachine s (env.flushers flusher path offset data s.cache.machine).2)
  | slots (s : FileState σ) (c : Cache σ) (h : c.machine = s.cache.machine) : Step env hooks s { s with cache := c }
  | switch (s : FileState σ) (k : Fin 8) : Step env hooks s ((switchToMount env.toEnv k).state s)
  | change {paths : List Path} {f : σ → σ} (s : FileState σ) (h : Change env s.currentFs paths f)
      (hpaths : ∀ p ∈ paths, Checked hooks s p) : Step env hooks s (withMachine s (f s.cache.machine))

abbrev Mediated (env : OperationsEnv σ) (hooks : Hooks) : FileState σ → FileState σ → Prop :=
  Relation.ReflTransGen (Step env hooks)

abbrev Mediates {α : Type} (env : OperationsEnv σ) (hooks : Hooks) (s₀ : FileState σ)
    (m : FileM σ α) : Prop :=
  Emits (Mediated env hooks s₀) (fun _ => True) m

abbrev Leads {α : Type} (Q : α → FileState σ → Prop) (m : FileM σ α) (s : FileState σ) : Prop :=
  Ends (fun _ _ _ => True) Q m s

/-- What one part leads to, the next one starts from. -/
theorem Leads.bind {α β : Type} {Q : α → FileState σ → Prop} {Q' : β → FileState σ → Prop}
    {m : FileM σ α} {f : α → FileM σ β} (hm : Leads Q m s) (hf : ∀ a t, Q a t → Leads Q' (f a) t) :
    Leads Q' (m >>= f) s :=
  Ends.bind (fun _ _ => trivial) hm hf

/-- A call mediates if it leads to mediated states. -/
theorem mediates_of_leads {α : Type} {m : FileM σ α}
    (h : ∀ s, Mediated env hooks s₀ s → Leads (fun _ t => Mediated env hooks s₀ t) m s) :
    Mediates env hooks s₀ m :=
  fun s hs => ⟨(h s hs).2, fun _ _ => trivial⟩

/-- A call that mediates leads to mediated states. -/
theorem leads_of_mediates {α : Type} {m : FileM σ α} (h : Mediates env hooks s₀ m)
    (hs : Mediated env hooks s₀ s) :
    Leads (fun _ t => Mediated env hooks s₀ t) m s := ⟨trivial, (h s hs).1⟩

/-- Initialising a driver changes the machine only. -/
theorem fsInitByType_leads (env : Env σ) (type : FsType) (partition blockdev : Int)
    (s : FileState σ) :
    Leads (fun _ t => ∃ x, t = withMachine s x) (fsInitByType env type partition blockdev) s := by
  unfold fsInitByType
  apply Ends.reads_bind
  apply Ends.ite
  · intro _
    exact Ends.pure trivial ⟨s.cache.machine, rfl⟩
  · intro _
    exact ⟨trivial, _, rfl⟩

/-- After a switch that succeeds the mount point is the current one. -/
theorem switchToMount_leads (env : Env σ) (l : Fin 8) (s : FileState σ) :
    Leads (fun ok t => t.mounts = s.mounts ∧ (ok = true → Current t l) ∧
      (ok = false → ∀ k, Current s k → Current t k))
      (switchToMount env l) s := by
  unfold switchToMount
  apply Ends.reads_bind
  dsimp only [id]
  apply Ends.ite
  · intro _
    exact Ends.pure trivial ⟨rfl, nofun, fun _ _ h => h⟩
  intro _
  apply Ends.ite
  · intro _
    exact ⟨trivial, rfl, fun _ => ⟨rfl, rfl, rfl⟩, nofun⟩
  intro _
  apply (fsInitByType_leads env _ _ _ s).bind
  rintro ok _ ⟨x, rfl⟩
  cases ok with
  | false => exact Ends.pure trivial ⟨rfl, nofun, fun _ _ h => h⟩
  | true => exact ⟨trivial, rfl, fun _ => ⟨rfl, rfl, rfl⟩, nofun⟩

theorem Step.mounts (h : Step env hooks s t) : t.mounts = s.mounts := by
  cases h with
  | query _ => rfl
  | writeBack => rfl
  | slots => rfl
  | switch _ k => exact (switchToMount_leads env.toEnv k s).2.1
  | change => rfl

theorem Mediated.mounts (h : Mediated env hooks s t) : t.mounts = s.mounts := by
  induction h with
  | refl => rfl
  | tail _ hstep ih => exact hstep.mounts.trans ih

/-- A query of a driver changes no file. -/
theorem query_leads {α : Type} {f : σ → α × σ} (hf : Query env fun x => (f x).2)
    (hs : Mediated env hooks s₀ s) :
    Leads (fun _ t => Mediated env hooks s₀ t ∧ ∀ k, Current s k → Current t k) (onMachine f) s :=
  ⟨trivial, hs.tail (.query s hf), fun _ h => h⟩

structure Offers (env : OperationsEnv σ) (of : FsType → FsDriver σ) : Prop where
  driver : ∀ type, of type = FsDriver.absent ∨ of type = env.driver type

theorem offers_driverOf : Offers env (driverOf env.toEnv) := by
  refine ⟨fun type => ?_⟩
  unfold driverOf
  split
  · exact Or.inl rfl
  · exact Or.inr rfl

theorem offers_linkDriver : Offers env (linkDriver env.toEnv) := by
  refine ⟨fun type => ?_⟩
  unfold linkDriver
  split
  · exact Or.inr rfl
  · exact Or.inl rfl

theorem offers_spaceDriver : Offers env (spaceDriver env.toEnv) := by
  refine ⟨fun type => ?_⟩
  unfold spaceDriver
  split
  · exact Or.inl rfl
  · exact Or.inr rfl

/-- A call of the driver of a type, or of none when it offers nothing. -/
theorem callDriver_leads {α : Type} {of : FsType → FsDriver σ} (hof : Offers env of)
    {f : FsDriver σ → σ → α × σ} (habsent : ∀ x, (f FsDriver.absent x).2 = x)
    (hf : ∀ type, Query env fun x => (f (env.driver type) x).2) (hs : Mediated env hooks s₀ s) :
    Leads (fun _ t => Mediated env hooks s₀ t ∧ ∀ k, Current s k → Current t k)
      (callDriver of f) s := by
  refine ⟨trivial, ?_, fun _ h => h⟩
  change Mediated env hooks s₀ (withMachine s (f (of s.currentFs) s.cache.machine).2)
  rcases hof.driver s.currentFs with habs | hdriver
  · rw [habs, habsent]
    exact hs
  · rw [hdriver]
    exact hs.tail (.query s (hf s.currentFs))

/-- A call of the cache mediates when its flushers and loaders do. -/
theorem onCache_mediates {α : Type} {m : Cached σ α}
    (hm : ∀ s : FileState σ, Emits (fun c => Mediated env hooks s₀ { s with cache := c }) (fun _ => True) m) :
    Mediates env hooks s₀ (onCache m) := fun s hs => hm s s.cache hs

/-- The flushers of the cache write what was checked when it was written. -/
theorem kept_mediated (s : FileState σ) :
    FsCache.KeptByFlushers env.flushers fun c => Mediated env hooks s₀ { s with cache := c } := by
  refine ⟨fun c c' hc hmachine => ?_, fun c flusher path offset data hc => ?_⟩
  · exact hc.tail (.slots { s with cache := c } c' hmachine)
  · exact hc.tail (.writeBack { s with cache := c } flusher path offset data)

/-- The loader of the cache only reads. -/
theorem kept_cachedReadAt (type : FsType) (s : FileState σ) :
    FsCache.KeptByLoader (cachedReadAt env.toEnv type) fun c => Mediated env hooks s₀ { s with cache := c } := by
  intro c path offset size hc
  unfold cachedReadAt
  rcases (@offers_driverOf _ env).driver type with habs | hdriver
  · rw [habs]
    exact hc
  · rw [hdriver]
    exact hc.tail (.query { s with cache := c } (.readFileAt type _ offset size))

theorem invalidate_mediates (path : Option Path) :
    Mediates env hooks s₀ (onCache (fsCacheInvalidatePath env.flushers path)) :=
  onCache_mediates fun s => (kept_mediated s).fsCacheInvalidatePath path

theorem fsCacheInvalidateAll_mediates : Mediates env hooks s₀ (fsCacheInvalidateAll env.toEnv) :=
  invalidate_mediates none

theorem fileInvalidateCachedFile_mediates (relPath : Path) :
    Mediates env hooks s₀ (fileInvalidateCachedFile env.toEnv relPath) :=
  Emits.reads_bind fun _ _ => invalidate_mediates _

def Located (mounts : Fin 8 → Mount) (path : CString) (r : Option (Path × Path))
    (t : FileState σ) : Prop :=
  ∀ found, r = some found → ∃ k, target mounts path = some (k, found) ∧ Current t k

/-- A path is resolved to the mount point that its drive names. -/
theorem resolvePath_leads (hs : Mediated env hooks s₀ s) (path : CString) :
    Leads (fun r t => Mediated env hooks s₀ t ∧ Located s₀.mounts path r t)
      (resolvePath env.toEnv path) s := by
  unfold resolvePath
  cases hresolve : Model.pathResolve Model.pathRootBytes path Model.pathMaxLen with
  | none => exact Ends.pure trivial ⟨hs, nofun⟩
  | some resolved =>
    apply Ends.reads_bind
    dsimp only [id]
    cases hfind : findMountPoint s.mounts resolved with
    | none => exact Ends.pure trivial ⟨hs, nofun⟩
    | some k =>
      have hswitch := (switchToMount_leads env.toEnv k s).and (P := fun _ t => Mediated env hooks s₀ t) (hs.tail (.switch s k))
      apply Leads.bind hswitch
      rintro ok t ⟨⟨hmounts, hcurrent, -⟩, ht⟩
      cases ok with
      | false => exact Ends.pure trivial ⟨ht, nofun⟩
      | true =>
        refine Ends.pure trivial ⟨ht, fun found hfound => ⟨k, ?_, hcurrent rfl⟩⟩
        rw [hs.mounts] at hfind hfound
        obtain ⟨backend, hbackend, rfl⟩ := Option.map_eq_some_iff.mp hfound
        unfold target
        rw [hresolve, Option.bind_some, hfind, Option.bind_some, hbackend]
        rfl

def LocatedSome (mounts : Fin 8 → Mount) (r : Option (Path × Path)) (t : FileState σ) : Prop :=
  ∀ found, r = some found → ∃ path k, target mounts path = some (k, found) ∧ Current t k

/-- Following links only reads. -/
theorem followFrom_leads (hs : Mediated env hooks s₀ s) (depth : Nat) (path : CString) :
    Leads (fun r t => Mediated env hooks s₀ t ∧ LocatedSome s₀.mounts r t)
      (followFrom env.toEnv depth path) s := by
  induction depth generalizing s path with
  | zero => exact Ends.pure trivial ⟨hs, nofun⟩
  | succ depth ih =>
    unfold followFrom
    apply (resolvePath_leads hs path).bind
    rintro r t ⟨ht, hr⟩
    cases r with
    | none => exact Ends.pure trivial ⟨ht, nofun⟩
    | some found =>
      obtain ⟨k, htarget, hk⟩ := hr found rfl
      have hdone {u : FileState σ} (hu : Mediated env hooks s₀ u) (hcurrent : Current u k) :
          Leads (fun r t => Mediated env hooks s₀ t ∧ LocatedSome s₀.mounts r t) (pure (some found)) u := by
        refine Ends.pure trivial ⟨hu, fun _ heq => ?_⟩
        obtain rfl := Option.some.inj heq
        exact ⟨path, k, htarget, hcurrent⟩
      refine (callDriver_leads offers_linkDriver (fun _ => rfl) (fun type => .isSymlink type _) ht).bind ?_
      rintro link u ⟨hu, hcurrent⟩
      apply Ends.ite (fun _ => hdone hu (hcurrent k hk))
      intro _
      refine (callDriver_leads offers_linkDriver (fun _ => rfl) (fun type => .readSymlink type _ _) hu).bind ?_
      rintro ⟨n, bytes⟩ v ⟨hv, hcurrent'⟩
      apply Ends.ite (fun _ => hdone hv (hcurrent' k (hcurrent k hk)))
      intro _
      apply Ends.ite (fun _ => ih hv _)
      intro _
      split
      · exact Ends.pure trivial ⟨hv, nofun⟩
      · exact ih hv _

theorem fileFollowLinks_leads (hs : Mediated env hooks s₀ s) (path : CString) :
    Leads (fun r t => Mediated env hooks s₀ t ∧ LocatedSome s₀.mounts r t)
      (fileFollowLinks env.toEnv path) s := by
  unfold fileFollowLinks
  apply Ends.ite
  · intro _
    exact Ends.pure trivial ⟨hs, nofun⟩
  · intro _
    exact followFrom_leads hs _ _

/-- A path that was allowed is checked for the file that it names. -/
theorem checked_of_target {path : CString} {k : Fin 8} {resolved backend : Path}
    (htarget : target s.mounts path = some (k, resolved, backend)) (hk : Current s k)
    (hallowed : fileAllowed hooks resolved true = true) : Checked hooks s backend := by
  unfold target at htarget
  obtain ⟨resolved', -, htarget⟩ := Option.bind_eq_some_iff.mp htarget
  obtain ⟨k', hfind, htarget⟩ := Option.bind_eq_some_iff.mp htarget
  obtain ⟨backend', hbackend, heq⟩ := Option.map_eq_some_iff.mp htarget
  obtain ⟨rfl, hfile⟩ := Prod.mk.inj heq
  obtain ⟨rfl, rfl⟩ := Prod.mk.inj hfile
  exact ⟨resolved', k', hallowed, hfind, hk, hbackend⟩

/-- The queries of `file.c` change no file. -/
theorem query_mediates {α : Type} {f : Path → FsDriver σ → σ → α × σ} (missing : α)
    (habsent : ∀ p x, (f p FsDriver.absent x).2 = x)
    (hf : ∀ p type, Query env fun x => (f p (env.driver type) x).2) (path : CString) :
    Mediates env hooks s₀ (do
      match ← fileFollowLinks env.toEnv path with
      | none => pure missing
      | some (_, backend) => callDriver (driverOf env.toEnv) (f backend)) := by
  apply mediates_of_leads
  intro s hs
  apply (fileFollowLinks_leads hs path).bind
  rintro r t ⟨ht, -⟩
  cases r with
  | none => exact Ends.pure trivial ht
  | some found => exact (callDriver_leads offers_driverOf (habsent _) (hf _) ht).mono fun _ _ h => h.1

theorem fileExists_mediates (path : CString) : Mediates env hooks s₀ (fileExists env.toEnv path) :=
  query_mediates false (fun _ _ => rfl) (fun p type => .isPresent type p) path

theorem fileIsDir_mediates (path : CString) : Mediates env hooks s₀ (fileIsDir env.toEnv path) :=
  query_mediates false (fun _ _ => rfl) (fun p type => .isDir type p) path

theorem fileSize_mediates (path : CString) : Mediates env hooks s₀ (fileSize env.toEnv path) :=
  query_mediates (-1) (fun _ _ => rfl) (fun p type => .fileSize type p) path

/-- `file_read_at` changes no file. -/
theorem fileReadAt_mediates (path : CString) (offset size : UInt32) :
    Mediates env hooks s₀ (fileReadAt env.toEnv hooks path offset size) := by
  apply mediates_of_leads
  intro s hs
  apply (fileFollowLinks_leads hs path).bind
  rintro r t ⟨ht, -⟩
  have hload (type : FsType) (p : Path) (o n : Nat) :
      Mediates env hooks s₀ (onCache (callLoader (cachedReadAt env.toEnv type) p o n)) :=
    onCache_mediates fun s => (kept_cachedReadAt type s).callLoader p o n
  cases r with
  | none => exact Ends.pure trivial ht
  | some found =>
    apply Ends.ite
    · intro _
      exact Ends.pure trivial ht
    intro _
    apply leads_of_mediates _ ht
    split
    · refine Emits.reads_bind fun u _ => Emits.bind (hload _ _ _ _) fun raw => ?_
      refine Emits.ite (fun _ => Emits.pure _) fun _ => Emits.ite (fun _ => Emits.pure _) fun _ =>
        ?_
      exact Emits.ite (fun _ => Emits.pure _) fun _ => Emits.pure _
    · refine Emits.reads_bind fun u _ => ?_
      split
      · exact hload _ _ _ _
      · exact onCache_mediates fun s => (kept_mediated s).fsCacheReadAt
          (kept_cachedReadAt _ s) _ _ _ _

/-- A change of checked files is mediated. -/
theorem change_leads {α : Type} {paths : List Path} {f : σ → α × σ}
    (hf : Change env s.currentFs paths fun x => (f x).2) (hpaths : ∀ p ∈ paths, Checked hooks s p)
    (hs : Mediated env hooks s₀ s) :
    Leads (fun _ t => Mediated env hooks s₀ t) (onMachine f) s :=
  ⟨trivial, hs.tail (.change s hf hpaths)⟩

/-- A driver changes the files of its path only. -/
theorem callDriver_change {α : Type} {backend : Path} {f : FsDriver σ → σ → α × σ}
    (habsent : ∀ x, (f FsDriver.absent x).2 = x)
    (hf : ∀ type, Change env type [backend] fun x => (f (env.driver type) x).2)
    (hchecked : Checked hooks s backend) (hs : Mediated env hooks s₀ s) :
    Leads (fun _ t => Mediated env hooks s₀ t) (callDriver (driverOf env.toEnv) f) s := by
  refine ⟨trivial, ?_⟩
  change Mediated env hooks s₀ (withMachine s (f (driverOf env.toEnv s.currentFs) s.cache.machine).2)
  rcases (@offers_driverOf _ env).driver s.currentFs with habs | hdriver
  · rw [habs, habsent]
    exact hs
  · rw [hdriver]
    exact hs.tail (.change s (hf s.currentFs) (List.forall_mem_singleton.mpr hchecked))

/-- A call that goes on with the resolved path, or fails. -/
theorem resolved_mediates {α : Type} {f : Option (Path × Path) → FileM σ α} (path : CString)
    (hnone : Mediates env hooks s₀ (f none))
    (hsome : ∀ resolved backend s, Mediated env hooks s₀ s →
      (fileAllowed hooks resolved true = true → Checked hooks s backend) →
      Leads (fun _ t => Mediated env hooks s₀ t) (f (some (resolved, backend))) s) :
    Mediates env hooks s₀ (resolvePath env.toEnv path >>= f) := by
  apply mediates_of_leads
  intro s hs
  apply (resolvePath_leads hs path).bind
  rintro r t ⟨ht, hr⟩
  cases r with
  | none => exact leads_of_mediates hnone ht
  | some found =>
    obtain ⟨k, htarget, hk⟩ := hr found rfl
    rw [← ht.mounts] at htarget
    exact hsome found.1 found.2 t ht fun hallowed => checked_of_target htarget hk hallowed

/-- `file_delete` asks before it deletes. -/
theorem fileDelete_mediates (path : CString) :
    Mediates env hooks s₀ (fileDelete env.toEnv hooks path) := by
  refine resolved_mediates path (Emits.pure _) ?_
  intro resolved backend s hs hchecked
  apply Ends.ite
  · intro _
    exact Ends.pure trivial hs
  intro hallowed
  rw [Bool.not_eq_true', Bool.not_eq_false] at hallowed
  apply (callDriver_change (fun _ => rfl) (fun type => .delete type backend) (hchecked hallowed) hs).bind
  intro ok t ht
  apply leads_of_mediates _ ht
  exact Emits.ite (fun _ => Emits.pure _) fun _ => Emits.bind
    (fileInvalidateCachedFile_mediates _) fun _ => Emits.pure _

/-- The two calls for directories ask before they work. -/
theorem fileDirectory_mediates {work : FsType → Path → σ → Bool × σ}
    (hwork : ∀ type p, Change env type [p] fun x => (work type p x).2) (path : CString) :
    Mediates env hooks s₀ (fileDirectory env hooks work path) := by
  refine resolved_mediates path (Emits.pure _) ?_
  intro resolved backend s hs hchecked
  apply Ends.ite
  · intro _
    exact Ends.pure trivial hs
  intro hallowed
  rw [Bool.not_eq_true', Bool.not_eq_false] at hallowed
  apply Ends.reads_bind
  apply Ends.ite
  · intro _
    exact Ends.pure trivial hs
  intro _
  have hpaths := List.forall_mem_singleton.mpr (hchecked hallowed)
  apply (change_leads (hwork s.currentFs backend) hpaths hs).bind
  intro ok t ht
  apply leads_of_mediates _ ht
  exact Emits.ite (fun _ => Emits.pure _) fun _ => Emits.bind fsCacheInvalidateAll_mediates fun _ => Emits.pure _

theorem fileMkdir_mediates (path : CString) : Mediates env hooks s₀ (fileMkdir env hooks path) :=
  fileDirectory_mediates (fun type p => .mkdir type p) path

theorem fileRmdir_mediates (path : CString) : Mediates env hooks s₀ (fileRmdir env hooks path) :=
  fileDirectory_mediates (fun type p => .rmdir type p) path

/-- `file_set_attr` asks before it sets. -/
theorem fileSetAttr_mediates (path : CString) (attrMask attrValue : UInt8) :
    Mediates env hooks s₀ (fileSetAttr env hooks path attrMask attrValue) := by
  refine resolved_mediates path (Emits.pure _) ?_
  intro resolved backend s hs hchecked
  apply Ends.ite
  · intro _
    exact Ends.pure trivial hs
  intro hallowed
  rw [Bool.not_eq_true', Bool.not_eq_false] at hallowed
  apply Ends.reads_bind
  apply Ends.ite
  · intro htype
    refine change_leads ?_ (List.forall_mem_singleton.mpr (hchecked hallowed)) hs
    rw [htype]
    exact .setAttr backend attrMask attrValue
  · intro _
    exact Ends.pure trivial hs

theorem fileListDir_mediates (path : CString) (n : Nat) :
    Mediates env hooks s₀ (fileListDir env hooks path n) := by
  refine resolved_mediates path (Emits.pure _) ?_
  intro resolved backend s hs _
  apply Ends.ite
  · intro _
    exact Ends.pure trivial hs
  intro _
  apply Ends.reads_bind
  apply Ends.ite
  · intro _
    exact Ends.pure trivial hs
  · intro _
    exact (query_leads (.listDir _ backend n) hs).mono fun _ _ h => h.1

def SameDevice (a b : Mount) : Prop :=
  a.fsType = b.fsType ∧ a.partition = b.partition ∧ a.blockdevIndex = b.blockdevIndex

def QuotaStays (hooks : Hooks) (mounts : Fin 8 → Mount) : Prop :=
  ∀ resolved k, findMountPoint mounts resolved = some k →
    hooks.quotaLimit (Model.pathUpperDrive (resolved.headD 0)) ≠ 0 →
    ∀ root l, Model.pathResolve Model.pathRootBytes
        (drivePath (Model.pathUpperDrive (resolved.headD 0))) Model.pathMaxLen = some root →
      findMountPoint mounts root = some l → SameDevice (mounts l) (mounts k)

/-- A mount point on the same device is current with it. -/
theorem current_same {k l : Fin 8} (h : Current s l)
    (hsame : SameDevice (s.mounts l) (s.mounts k)) : Current s k :=
  ⟨h.1.trans hsame.1, h.2.1.trans hsame.2.1, h.2.2.trans hsame.2.2⟩

/-- The target of a path lies on the mount point that is found for it. -/
theorem target_find {mounts : Fin 8 → Mount} {path : CString} {k : Fin 8} {found : Path × Path}
    (h : target mounts path = some (k, found)) : findMountPoint mounts found.1 = some k := by
  unfold target at h
  obtain ⟨resolved, -, h⟩ := Option.bind_eq_some_iff.mp h
  obtain ⟨l, hfind, h⟩ := Option.bind_eq_some_iff.mp h
  obtain ⟨backend, -, heq⟩ := Option.map_eq_some_iff.mp h
  obtain ⟨rfl, hfound⟩ := Prod.mk.inj heq
  rw [← hfound]
  exact hfind

/-- The check of the quota leads back to the mount point, or asks about another one. -/
theorem fileCheckQuota_leads (hquota : QuotaStays hooks s₀.mounts) (hs : Mediated env hooks s₀ s)
    {resolved : Path} {k : Fin 8} (hfind : findMountPoint s₀.mounts resolved = some k)
    (hk : Current s k) (n : Nat) :
    Leads (fun _ t => Mediated env hooks s₀ t ∧ Current t k)
      (fileCheckQuota env.toEnv hooks (resolved.headD 0) n) s := by
  unfold fileCheckQuota
  apply Ends.ite
  · intro _
    exact Ends.pure trivial ⟨hs, hk⟩
  intro _
  apply Ends.ite
  · intro _
    exact Ends.pure trivial ⟨hs, hk⟩
  intro hlimit
  refine Leads.bind (Q := fun _ t => Mediated env hooks s₀ t ∧ Current t k) ?_ fun _ t ht =>
    Ends.pure trivial ht
  unfold fileDiskSpace
  split
  · exact Ends.pure trivial ⟨hs, hk⟩
  next root hroot =>
  apply Ends.reads_bind
  dsimp only [id]
  split
  · exact Ends.pure trivial ⟨hs, hk⟩
  next l hl =>
  have hswitch := (switchToMount_leads env.toEnv l s).and (P := fun _ t => Mediated env hooks s₀ t) (hs.tail (.switch s l))
  apply Leads.bind hswitch
  rintro ok t ⟨⟨-, htrue, hfalse⟩, ht⟩
  cases ok with
  | false => exact Ends.pure trivial ⟨ht, hfalse rfl k hk⟩
  | true =>
    have hsame : SameDevice (t.mounts l) (t.mounts k) := by
      rw [ht.mounts]
      rw [hs.mounts] at hl
      exact hquota resolved k hfind hlimit root l hroot hl
    apply (callDriver_leads offers_spaceDriver (fun _ => rfl) (fun type => .space type) ht).bind
    rintro space u ⟨hu, hcurrent⟩
    exact Ends.pure trivial ⟨hu, hcurrent k (current_same (htrue rfl) hsame)⟩

/-- The write of a checked path is mediated. -/
theorem fileWriteStored_leads {backend : Path} (hchecked : Checked hooks s backend)
    (hs : Mediated env hooks s₀ s) (stored : List UInt8) (size : Nat) :
    Leads (fun _ t => Mediated env hooks s₀ t)
      (fileWriteStored env.toEnv backend stored size) s := by
  unfold fileWriteStored
  apply (callDriver_change (fun _ => rfl) (fun type => .write type backend stored) hchecked hs).bind
  intro written t ht
  apply leads_of_mediates _ ht
  exact Emits.ite (fun _ => Emits.pure _) fun _ => Emits.bind
    (fileInvalidateCachedFile_mediates _) fun _ => Emits.pure _

/-- `file_write` asks before it writes, if the quota check does not move the mount point. -/
theorem fileWrite_mediates (hquota : QuotaStays hooks s₀.mounts) (path : CString)
    (data : List UInt8) :
    Mediates env hooks s₀ (fileWrite env.toEnv hooks path data) := by
  apply mediates_of_leads
  intro s hs
  apply (fileFollowLinks_leads hs path).bind
  rintro r t ⟨ht, hr⟩
  cases r with
  | none => exact Ends.pure trivial ht
  | some found =>
    obtain ⟨resolved, backend⟩ := found
    obtain ⟨path', k, htarget, hk⟩ := hr _ rfl
    apply Ends.ite
    · intro _
      exact Ends.pure trivial ht
    intro hallowed
    rw [Bool.not_eq_true', Bool.not_eq_false] at hallowed
    apply (fileCheckQuota_leads hquota ht (target_find htarget) hk data.length).bind
    rintro room u ⟨hu, hcurrent⟩
    apply Ends.ite
    · intro _
      exact Ends.pure trivial hu
    intro _
    rw [← hu.mounts] at htarget
    have hchecked := checked_of_target htarget hcurrent hallowed
    split
    · apply Ends.ite
      · intro _
        exact Ends.pure trivial hu
      · intro _
        exact fileWriteStored_leads hchecked hu _ _
    · exact fileWriteStored_leads hchecked hu _ _

theorem query_onMachine {α : Type} {f : σ → α × σ} (hf : Query env fun x => (f x).2) :
    Mediates env hooks s₀ (onMachine f) :=
  mediates_of_leads fun _ hs => (query_leads hf hs).mono fun _ _ h => h.1

/-- A failed copy is deleted with a check. -/
theorem fileCopyExisting_mediates (dst : CString) (read : Nat) :
    Mediates env hooks s₀ (fileCopyExisting env.toEnv hooks dst read) := by
  refine Emits.bind (fileSize_mediates dst) fun existing => Emits.ite
    (fun _ => Emits.pure _) fun _ => ?_
  refine Emits.bind (query_onMachine (.kmalloc _)) fun room => Emits.ite
    (fun _ => Emits.pure _) fun _ => ?_
  refine Emits.ite (fun _ => Emits.pure _) fun _ => ?_
  exact Emits.bind (fileReadAt_mediates dst _ _) fun _ => Emits.pure _

/-- Every piece of a copy is written with a check. -/
theorem fileCopyFrom_mediates (hquota : QuotaStays hooks s₀.mounts) (src dst : CString)
    (fsize rounds offset : Nat) :
    Mediates env hooks s₀ (fileCopyFrom env.toEnv hooks src dst fsize rounds offset) := by
  induction rounds generalizing offset with
  | zero => exact Emits.pure _
  | succ rounds ih =>
    refine Emits.ite (fun _ => ?_) fun _ => Emits.pure _
    refine Emits.bind (fileReadAt_mediates src _ _) fun read => Emits.ite
      (fun _ => Emits.pure _) fun _ => ?_
    refine Emits.bind (Emits.ite (fun _ => Emits.pure _) fun _ => fileCopyExisting_mediates dst _) fun existing => ?_
    cases existing with
    | none => exact Emits.pure _
    | some bytes =>
      refine Emits.bind (fileWrite_mediates hquota dst _) fun wrote => Emits.ite
        (fun _ => Emits.pure _) fun _ => ?_
      exact ih _

/-- `file_copy_regular` asks for its destination. -/
theorem fileCopyRegular_mediates (hquota : QuotaStays hooks s₀.mounts) (src dst : CString) :
    Mediates env hooks s₀ (fileCopyRegular env.toEnv hooks src dst) := by
  refine Emits.bind (fileSize_mediates src) fun fsize => Emits.ite (fun _ => Emits.pure _) fun _ =>
    ?_
  refine Emits.bind (query_onMachine (.kmalloc _)) fun room => Emits.ite
    (fun _ => Emits.pure _) fun _ => ?_
  exact fileCopyFrom_mediates hquota _ _ _ _ _

/-- A move is a copy and a deletion, both with a check. -/
theorem fileMove_mediates (hquota : QuotaStays hooks s₀.mounts) (oldpath newpath : CString)
    (oldResolved newResolved : Path) :
    Mediates env hooks s₀ (fileMove env.toEnv hooks oldpath newpath oldResolved newResolved) := by
  refine Emits.bind (fileIsDir_mediates oldpath) fun dir => Emits.ite
    (fun _ => Emits.pure _) fun _ => ?_
  refine Emits.bind (fileExists_mediates newpath) fun taken => Emits.ite
    (fun _ => Emits.pure _) fun _ => ?_
  refine Emits.bind (fileCopyRegular_mediates hquota _ _) fun copied => Emits.ite
    (fun _ => Emits.pure _) fun _ => ?_
  refine Emits.bind (fileDelete_mediates _) fun deleted => Emits.ite
    (fun _ => Emits.pure _) fun _ => ?_
  exact Emits.bind fsCacheInvalidateAll_mediates fun _ => Emits.pure _

def RenameStays (mounts : Fin 8 → Mount) (oldpath newpath : CString) : Prop :=
  ∀ k found l found', target mounts oldpath = some (k, found) → target mounts newpath = some (l, found') →
    (mounts k).fsType = (mounts l).fsType → SameDevice (mounts l) (mounts k)

/-- `file_rename` asks for both paths. -/
theorem fileRename_mediates (hquota : QuotaStays hooks s₀.mounts) {oldpath newpath : CString}
    (hrename : RenameStays s₀.mounts oldpath newpath) :
    Mediates env hooks s₀ (fileRename env.toEnv hooks oldpath newpath) := by
  apply mediates_of_leads
  intro s hs
  apply (resolvePath_leads hs oldpath).bind
  rintro r t ⟨ht, hr⟩
  cases r with
  | none => exact Ends.pure trivial ht
  | some found =>
    obtain ⟨oldResolved, oldBackend⟩ := found
    obtain ⟨k, hold, hk⟩ := hr _ rfl
    apply Ends.reads_bind
    apply (resolvePath_leads ht newpath).bind
    rintro r' u ⟨hu, hr'⟩
    cases r' with
    | none => exact Ends.pure trivial hu
    | some found' =>
      obtain ⟨newResolved, newBackend⟩ := found'
      obtain ⟨l, hnew, hl⟩ := hr' _ rfl
      apply Ends.reads_bind
      apply Ends.ite
      · intro _
        exact Ends.pure trivial hu
      intro hallowed
      simp only [Bool.or_eq_true, Bool.not_eq_true', not_or, Bool.not_eq_false] at hallowed
      apply Ends.ite
      · intro _
        exact leads_of_mediates (fileMove_mediates hquota _ _ _ _) hu
      intro hsame
      apply Ends.ite
      · intro _
        exact Ends.pure trivial hu
      intro _
      have htype : t.currentFs = u.currentFs := not_not.mp hsame
      have hdevice : SameDevice (u.mounts l) (u.mounts k) := by
        rw [hu.mounts]
        apply hrename k _ l _ hold hnew
        rw [← hu.mounts, ← hl.1, ← htype, hk.1, ht.mounts, hu.mounts]
      have hpaths : ∀ p ∈ [oldBackend, newBackend], Checked hooks u p := by
        rw [← hu.mounts] at hold hnew
        intro p hp
        rcases List.mem_pair.mp hp with rfl | rfl
        · exact checked_of_target hold (current_same hl hdevice) hallowed.1
        · exact checked_of_target hnew hl hallowed.2
      have hleads : Leads (fun _ v => Mediated env hooks s₀ v)
          (onMachine ((renameDriver env.toEnv t.currentFs).rename oldBackend newBackend)) u := by
        unfold renameDriver
        split
        · rw [htype]
          exact change_leads (.rename u.currentFs oldBackend newBackend) hpaths hu
        · exact ⟨trivial, hu⟩
      apply hleads.bind
      intro ok v hv
      apply leads_of_mediates _ hv
      exact Emits.ite (fun _ => Emits.pure _) fun _ => Emits.bind fsCacheInvalidateAll_mediates fun _ => Emits.pure _

end Monios.Analysis.FileMediation
