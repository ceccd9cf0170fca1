import Monios.Analysis.PathResolution
import Monios.Model.MountTable

/-!
# The mount table

A call either changes nothing but the cache, and then it has failed, or it fills a free entry with a
path that no other entry has, or it gives up a mounted entry (`mountCall_change`). So the count
stays that of the mounted entries and their paths stay distinct (`Table.change`), and of the mounted
entries whose path is a prefix of a given one by components `find_mount_point` takes the longest
(`findMountPoint_spec`).
-/

set_option autoImplicit false

namespace Monios.Analysis.MountTables

open Monios.Library Monios.Model Monios.Model.FsCache Monios.Model.FileCalls Monios.Model.MountTable
open Monios.Analysis.PathResolution

variable {σ : Type}

def ComponentPrefix (mount path : Path) : Prop :=
  ∃ rest, path = mount ++ rest ∧ (rest = [] ∨ rest.head? = some pathSeparator ∨ mount.getLast? = some pathSeparator)

def MountPath (path : Path) : Prop := ∃ drive stack, Canonical maxMountPath drive stack path

/-- Good components joined do not end with a separator. -/
theorem getLast?_intercalate {stack : List (List UInt8)} (h : ∀ name ∈ stack, GoodComponent name) :
    ([pathSeparator].intercalate stack).getLast? ≠ some pathSeparator := by
  obtain rfl | ⟨front, name, rfl⟩ := List.eq_nil_or_concat stack
  · simp [List.intercalate]
  rw [List.concat_eq_append] at h ⊢
  have hname := h name (List.mem_append_right _ List.mem_cons_self)
  have hlast : name.getLast? ≠ some pathSeparator :=
    fun hlast => hname.no_separator (List.mem_of_getLast? hlast)
  have hne : name.getLast? ≠ none := fun hnone => hname.ne_nil (List.getLast?_eq_none_iff.mp hnone)
  obtain ⟨b, hb⟩ := Option.ne_none_iff_exists'.mp hne
  by_cases hfront : front = []
  · rw [hfront, List.nil_append, List.intercalate_singleton]
    exact hlast
  · rw [intercalate_concat _ hfront, List.getLast?_append, List.getLast?_append, hb]
    rwa [hb] at hlast

/-- Of the canonical paths only the root ends with a separator. -/
theorem getLast?_canonical {n : Nat} {drive : UInt8} {stack : List (List UInt8)} {path : Path}
    (h : Canonical n drive stack path) : path.getLast? = some pathSeparator ↔ stack = [] := by
  have hlast := getLast?_intercalate fun name hn => (h.plain name hn).1
  rw [h.eq]
  unfold canonicalPath
  constructor
  · intro hsep
    obtain rfl | ⟨front, name, rfl⟩ := List.eq_nil_or_concat stack
    · rfl
    · have hne : [pathSeparator].intercalate (front.concat name) ≠ [] := by
        intro hnil
        have hnames := names_intercalate fun c hc => (h.plain c hc).1
        rw [hnil, List.concat_eq_append] at hnames
        exact List.concat_ne_nil _ _ hnames.symm
      obtain ⟨b, hb⟩ := Option.ne_none_iff_exists'.mp (mt List.getLast?_eq_none_iff.mp hne)
      rw [List.getLast?_cons, List.getLast?_cons, List.getLast?_cons, hb] at hsep
      rw [hb] at hlast
      exact absurd hsep hlast
  · rintro rfl
    rfl

/-- A canonical path has no separator to strip. -/
theorem stripSeparators_canonical {n : Nat} {drive : UInt8} {stack : List (List UInt8)}
    {path : Path} (h : Canonical n drive stack path) : stripSeparators path = path := by
  have hlast := getLast?_intercalate fun name hn => (h.plain name hn).1
  rw [h.eq]
  show [drive, 0x3A, pathSeparator] ++ ([pathSeparator].intercalate stack).rdropWhile (· == pathSeparator) =
    [drive, 0x3A, pathSeparator] ++ [pathSeparator].intercalate stack
  rw [List.rdropWhile_eq_self_iff.mpr]
  intro hne hsep
  rw [beq_iff_eq] at hsep
  exact hlast (by rw [List.getLast?_eq_some_getLast hne, hsep])

/-- What `normalize_mount_path` accepts is the path of a mount point. -/
theorem mountPath_of_normalize {input : CString} {path : Path}
    (h : normalizeMountPath input = some path) :
    MountPath path := by
  unfold normalizeMountPath at h
  split at h
  · cases h
  split at h
  · cases h
  next resolved hresolved =>
  split at h
  · cases h
  next hcheck =>
  obtain ⟨stack, -, hcanonical⟩ := canonical_of_pathResolve hresolved
  rw [stripSeparators_canonical hcanonical, Option.some.injEq] at h
  subst h
  simp only [Bool.or_eq_true, decide_eq_true_eq, not_or] at hcheck
  exact ⟨_, stack, { hcanonical with fits := Nat.lt_of_not_le hcheck.1.1.1.1.2 }⟩

/-- A mount point matches the paths that it is a prefix of, component by component. -/
theorem mountMatches_iff {mount : Mount} (hmount : MountPath mount.path) (path : Path) :
    mountMatches path mount = true ↔ ComponentPrefix mount.path path := by
  obtain ⟨drive, stack, h⟩ := hmount
  have hend := getLast?_canonical h
  unfold mountMatches ComponentPrefix
  by_cases hroot : stack = []
  · have heq : mount.path = [drive, 0x3A, pathSeparator] := by
      rw [h.eq, hroot]
      rfl
    rw [heq]
    simp only [List.length_cons, List.length_nil, Nat.zero_add, Nat.reduceAdd,
      List.getElem?_cons_succ,
      List.getElem?_cons_zero, and_self, if_true, Bool.and_eq_true, beq_iff_eq]
    constructor
    · rintro ⟨⟨hdrive, hcolon⟩, hsep⟩
      obtain _ | ⟨a, _ | ⟨b, _ | ⟨c, rest⟩⟩⟩ := path
      · cases hdrive
      · cases hcolon
      · cases hsep
      · cases hdrive
        cases hcolon
        cases hsep
        exact ⟨rest, rfl, .inr (.inr rfl)⟩
    · rintro ⟨rest, rfl, -⟩
      exact ⟨⟨rfl, rfl⟩, rfl⟩
  · -- the third byte of such a path is its last one, which is no separator, when there are three
    have hnot : ¬ (mount.path.length = 3 ∧ mount.path[2]? = some pathSeparator) := by
      rintro ⟨hlen, hthird⟩
      refine hroot (hend.mp ?_)
      rw [List.getLast?_eq_getElem?, hlen]
      exact hthird
    have hlast : mount.path.getLast? ≠ some pathSeparator := fun hlast => hroot (hend.mp hlast)
    rw [if_neg hnot]
    simp only [Bool.and_eq_true, Bool.or_eq_true, beq_iff_eq, List.isPrefixOf_iff_prefix]
    constructor
    · rintro ⟨⟨rest, rfl⟩, hcase⟩
      refine ⟨rest, rfl, ?_⟩
      obtain hlen | hsep := hcase
      · rw [List.length_append] at hlen
        exact .inl (List.length_eq_zero_iff.mp (by omega))
      · rw [List.getElem?_append_right (Nat.le_refl _), Nat.sub_self] at hsep
        rw [List.head?_eq_getElem?]
        exact .inr (.inl hsep)
    · rintro ⟨rest, rfl, hcase⟩
      refine ⟨List.prefix_append _ _, ?_⟩
      obtain rfl | hhead | hbad := hcase
      · exact .inl (by rw [List.append_nil])
      · rw [List.getElem?_append_right (Nat.le_refl _), Nat.sub_self, ← List.head?_eq_getElem?]
        exact .inr hhead
      · exact absurd hbad hlast

def Covers (mounts : Fin 8 → Mount) (path : Path) (i : Fin 8) : Prop :=
  (mounts i).mounted = true ∧ ComponentPrefix (mounts i).path path

def Best (mounts : Fin 8 → Mount) (path : Path) (seen : List (Fin 8)) : Option (Fin 8) × Nat → Prop
  | (none, length) => length = 0 ∧ ∀ i ∈ seen, ¬ Covers mounts path i
  | (some best, length) => Covers mounts path best ∧ length = (mounts best).path.length ∧
      ∀ i ∈ seen, Covers mounts path i → (mounts i).path.length ≤ length

/-- The search keeps the longest match of the entries it has seen. -/
theorem findMountFrom_spec {mounts : Fin 8 → Mount}
    (hpaths : ∀ i, (mounts i).mounted = true → MountPath (mounts i).path) (path : Path)
    (todo seen : List (Fin 8)) (best : Option (Fin 8) × Nat) (h : Best mounts path seen best) :
    ∃ length, Best mounts path (seen ++ todo) (findMountFrom mounts path todo best, length) := by
  induction todo generalizing seen best with
  | nil =>
    rw [List.append_nil]
    exact ⟨best.2, h⟩
  | cons i todo ih =>
    have hstep : ∀ {best' : Option (Fin 8) × Nat}, Best mounts path (seen ++ [i]) best' →
        ∃ length, Best mounts path (seen ++ i :: todo) (findMountFrom mounts path todo best', length) := by
      intro best' hbest
      have := ih (seen ++ [i]) best' hbest
      rwa [List.append_assoc] at this
    unfold findMountFrom
    by_cases hcovers : Covers mounts path i
    · obtain ⟨hmounted, hprefix⟩ := hcovers
      have hmatches := (mountMatches_iff (hpaths i hmounted) path).mpr hprefix
      have hne : (mounts i).path.isEmpty = false := by
        obtain ⟨drive, stack, hcanonical⟩ := hpaths i hmounted
        rw [hcanonical.eq]
        rfl
      simp only [hmounted, hne, hmatches, Bool.not_false, Bool.true_and, decide_eq_true_eq]
      split
      · next hlonger =>
        refine hstep ⟨⟨hmounted, hprefix⟩, rfl, ?_⟩
        intro j hj hcovers
        obtain hj | hj := List.mem_append.mp hj
        · obtain ⟨_ | k, length⟩ := best
          · exact absurd hcovers (h.2 j hj)
          · exact Nat.le_trans (h.2.2 j hj hcovers) (Nat.le_of_lt hlonger)
        · rw [List.mem_singleton.mp hj]
      · next hshorter =>
        refine hstep ?_
        obtain ⟨_ | k, length⟩ := best
        · -- a path that is not empty is longer than none
          rw [List.isEmpty_eq_false_iff, ← List.length_pos_iff] at hne
          exact absurd (by rw [h.1]; exact hne) hshorter
        · refine ⟨h.1, h.2.1, ?_⟩
          intro j hj hcovers
          obtain hj | hj := List.mem_append.mp hj
          · exact h.2.2 j hj hcovers
          · rw [List.mem_singleton.mp hj]
            exact Nat.le_of_not_lt hshorter
    · have htest : ((mounts i).mounted && !(mounts i).path.isEmpty && mountMatches path (mounts i) &&
          decide (best.2 < (mounts i).path.length)) = false := by
        rw [Bool.eq_false_iff]
        intro htrue
        simp only [Bool.and_eq_true] at htrue
        exact hcovers ⟨htrue.1.1.1, (mountMatches_iff (hpaths i htrue.1.1.1) path).mp htrue.1.2⟩
      simp only [htest, Bool.false_eq_true, if_false]
      refine hstep ?_
      obtain ⟨_ | k, length⟩ := best
      · refine ⟨h.1, ?_⟩
        intro j hj
        obtain hj | hj := List.mem_append.mp hj
        · exact h.2 j hj
        · rwa [List.mem_singleton.mp hj]
      · refine ⟨h.1, h.2.1, ?_⟩
        intro j hj hcovers'
        obtain hj | hj := List.mem_append.mp hj
        · exact h.2.2 j hj hcovers'
        · rw [List.mem_singleton.mp hj] at hcovers'
          exact absurd hcovers' hcovers

def Longest (mounts : Fin 8 → Mount) (path : Path) : Option (Fin 8) → Prop
  | none => ∀ i, ¬ Covers mounts path i
  | some best => Covers mounts path best ∧ ∀ i, Covers mounts path i → (mounts i).path.length ≤ (mounts best).path.length

/-- `find_mount_point` finds the longest match of the table. -/
theorem findMountPoint_spec {mounts : Fin 8 → Mount}
    (hpaths : ∀ i, (mounts i).mounted = true → MountPath (mounts i).path) (path : Path) :
    Longest mounts path (findMountPoint mounts path) := by
  unfold findMountPoint
  by_cases hempty : path.isEmpty = true
  · rw [if_pos hempty]
    intro i hcovers
    obtain ⟨hmounted, rest, hrest, -⟩ := hcovers
    obtain ⟨drive, stack, hcanonical⟩ := hpaths i hmounted
    rw [List.isEmpty_iff.mp hempty, hcanonical.eq] at hrest
    cases hrest
  · rw [if_neg hempty]
    obtain ⟨length, hbest⟩ := findMountFrom_spec hpaths path (List.finRange 8) [] (none, 0)
      ⟨rfl, fun _ hi => absurd hi List.not_mem_nil⟩
    rw [List.nil_append] at hbest
    cases hfound : findMountFrom mounts path (List.finRange 8) (none, 0) with
    | none =>
      rw [hfound] at hbest
      exact fun i => hbest.2 i (List.mem_finRange i)
    | some best =>
      rw [hfound] at hbest
      obtain ⟨hcovers, hlength, hlongest⟩ := hbest
      rw [hlength] at hlongest
      exact ⟨hcovers, fun i => hlongest i (List.mem_finRange i)⟩

def Same (s t : MountState σ) : Prop := ∃ cache, t = { s with cache := cache }

def SameMounts (s t : MountState σ) : Prop := t.mounts = s.mounts ∧ t.mountCount = s.mountCount

/-- The same table at the same mount is the same table. -/
theorem Same.mounts {s t : MountState σ} (h : Same s t) : SameMounts s t := by
  obtain ⟨cache, rfl⟩ := h
  exact ⟨rfl, rfl⟩

/-- Having the same table is transitive. -/
theorem SameMounts.trans {s t u : MountState σ} (h : SameMounts s t) (h' : SameMounts t u) :
    SameMounts s u :=
  ⟨h'.1.trans h.1, h'.2.trans h.2⟩

def Mounted (mounts : Fin 8 → Mount) (path : Path) : Prop :=
  ∃ i, (mounts i).mounted = true ∧ (mounts i).path = path

inductive Change (s : MountState σ) : Bool → MountState σ → Prop
  | same {t : MountState σ} (h : Same s t) : Change s false t
  | added {t : MountState σ} (i : Fin 8) (mount : Mount) (hfree : (s.mounts i).mounted = false)
      (hnew : ¬ Mounted s.mounts mount.path) (hmounted : mount.mounted = true) (hpath : MountPath mount.path)
      (h : SameMounts (addMount i mount s) t) : Change s true t
  | removed {t : MountState σ} (i : Fin 8) (hmounted : (s.mounts i).mounted = true) (h : SameMounts (removeMount i s) t) :
      Change s true t

abbrev Ends {α : Type} (Q : α → MountState σ → Prop) (m : MountM σ α) (s : MountState σ) : Prop :=
  Traced.Ends (fun _ _ _ => True) Q m s

section

variable {s t : MountState σ} {α β : Type} {Q : α → MountState σ → Prop} {R : β → MountState σ → Prop}

/-- Two calls in a row. -/
theorem Ends.bind {m : MountM σ α} {f : α → MountM σ β} (hm : Ends Q m s)
    (hf : ∀ a t, Q a t → Ends R (f a) t) :
    Ends R (m >>= f) s :=
  Traced.Ends.bind (fun _ _ => trivial) hm hf

/-- A call that does nothing. -/
theorem Ends.pure {a : α} (h : Q a s) : Ends Q (Pure.pure a) s := Traced.Ends.pure trivial h

/-- What only uses the caches of the files leaves the mounts alone. -/
theorem onFile_ends {m : FileM σ α} (hm : ∀ f, ∃ cache, m.state f = { f with cache := cache })
    (h : Same s t) :
    Ends (fun _ u => Same s u) (onFile m) t := by
  refine ⟨trivial, ?_⟩
  obtain ⟨cache, rfl⟩ := h
  obtain ⟨cache', hstate⟩ := hm { s.toFileState with cache := cache }
  refine ⟨cache', ?_⟩
  show { s with toFileState := m.state { s.toFileState with cache := cache } } = _
  rw [hstate]

/-- A call of the machine below leaves the mounts alone. -/
theorem onMachine_ends (f : σ → α × σ) (h : Same s t) :
    Ends (fun _ u => Same s u) (onFile (onMachine f)) t :=
  onFile_ends (fun _ => ⟨_, rfl⟩) h

/-- A call of the cache leaves the mounts alone. -/
theorem onCache_ends (m : Cached σ α) (h : Same s t) :
    Ends (fun _ u => Same s u) (onFile (onCache m)) t :=
  onFile_ends (fun _ => ⟨_, rfl⟩) h

variable (env : MountEnv σ)

/-- Starting a file system leaves the mounts alone. -/
theorem fsInitByType_ends (type : FsType) (partition blockdev : Int) (h : Same s t) :
    Ends (fun _ u => Same s u)
      (onFile (FileCalls.fsInitByType env.toEnv type partition blockdev)) t := by
  refine onFile_ends (fun f => ?_) h
  unfold FileCalls.fsInitByType
  rw [Traced.state_bind]
  split
  · exact ⟨f.cache, rfl⟩
  · exact ⟨_, rfl⟩

/-- Giving up the cache leaves the mounts alone. -/
theorem fsCacheInvalidateAll_ends (h : Same s t) :
    Ends (fun _ u => Same s u) (onFile (fsCacheInvalidateAll env.toEnv)) t :=
  onCache_ends _ h

/-- Going back to a mount leaves the table alone. -/
theorem restoreCurrentMount_ends (fs : FsType) (partition blockdev : Int) (mountPath : Path)
    (h : SameMounts s t) :
    Ends (fun _ u => SameMounts s u)
      (restoreCurrentMount env fs partition blockdev mountPath) t := by
  unfold restoreCurrentMount
  refine Traced.Ends.ite (fun _ => Ends.pure h) fun _ => ?_
  refine Ends.bind (fsInitByType_ends env fs partition blockdev ⟨t.cache, rfl⟩) fun ok u hu => ?_
  have hu := h.trans hu.mounts
  exact Traced.Ends.ite (fun _ => Ends.pure hu) fun _ => ⟨trivial, hu⟩

/-- Going back to the mount that is current changes nothing. -/
theorem restoreCurrentMount_same (h : Same s t) : Ends (fun _ u => Same s u)
      (restoreCurrentMount env s.currentFs s.currentMountPartition s.currentBlockdev s.currentMountPath) t := by
  unfold restoreCurrentMount
  refine Traced.Ends.ite (fun _ => Ends.pure h) fun _ => ?_
  refine Ends.bind (fsInitByType_ends env _ _ _ h) fun ok u hu => ?_
  refine Traced.Ends.ite (fun _ => Ends.pure hu) fun _ => ⟨trivial, ?_⟩
  obtain ⟨cache, rfl⟩ := hu
  exact ⟨cache, rfl⟩

/-- The empty entry that is found is not mounted. -/
theorem findEmpty_spec {mounts : Fin 8 → Mount} {path : Path} {todo : List (Fin 8)}
    {emptyIdx found : Option (Fin 8)} (h : findEmpty mounts path todo emptyIdx = some found)
    (hempty : ∀ i, emptyIdx = some i → (mounts i).mounted = false) :
    (∀ i ∈ todo, ¬ ((mounts i).mounted = true ∧ (mounts i).path = path)) ∧
      ∀ i, found = some i → (mounts i).mounted = false := by
  induction todo generalizing emptyIdx with
  | nil =>
    cases h
    exact ⟨fun _ hi => absurd hi List.not_mem_nil, hempty⟩
  | cons j todo ih =>
    unfold findEmpty at h
    split at h
    · cases h
    next hfound =>
    rw [Bool.and_eq_true, beq_iff_eq] at hfound
    split at h
    · next hfree =>
      rw [Bool.and_eq_true, Bool.not_eq_true'] at hfree
      obtain ⟨hrest, hindex⟩ := ih h (by rintro _ ⟨⟩; exact hfree.1)
      exact ⟨List.forall_mem_cons.mpr ⟨hfound, hrest⟩, hindex⟩
    · obtain ⟨hrest, hindex⟩ := ih h hempty
      exact ⟨List.forall_mem_cons.mpr ⟨hfound, hrest⟩, hindex⟩

/-- If an empty entry is found in the whole table, the path is not mounted. -/
theorem findEmpty_all {mounts : Fin 8 → Mount} {path : Path} {i : Fin 8}
    (h : findEmpty mounts path (List.finRange 8) none = some (some i)) :
    ¬ Mounted mounts path ∧ (mounts i).mounted = false := by
  obtain ⟨hnone, hfree⟩ := findEmpty_spec h (fun _ hnone => nomatch hnone)
  exact ⟨fun ⟨j, hj⟩ => hnone j (List.mem_finRange j) hj, hfree i rfl⟩

/-- `file_mount` adds one entry, or fails and leaves the table alone. -/
theorem fileMount_change (probeBlockdev : Int) (mountPath fsType : CString) (partition : Int) :
    Ends (Change s) (fileMount env probeBlockdev mountPath fsType partition) s := by
  have hself : Same s s := ⟨s.cache, rfl⟩
  unfold fileMount
  cases hpath : normalizeMountPath mountPath with
  | none => exact Ends.pure (.same hself)
  | some normalized =>
    refine Traced.Ends.ite (fun _ => Ends.pure (.same hself)) fun _ => Traced.Ends.reads_bind ?_
    dsimp only [id]
    cases hempty : findEmpty s.mounts normalized (List.finRange 8) none with
    | none => exact Ends.pure (.same hself)
    | some found =>
      cases found with
      | none => exact Ends.pure (.same hself)
      | some emptyIdx =>
        obtain ⟨hnew, hfree⟩ := findEmpty_all hempty
        refine Ends.bind (fsInitByType_ends env _ _ _ hself) fun ok t ht => ?_
        refine Traced.Ends.ite (fun _ => ?_) fun _ => ?_
        · -- the driver has not found its volume
          refine Ends.bind (Q := fun _ u => Same s u) ?_ fun _ u hu => Ends.pure (.same hu)
          exact Traced.Ends.ite (fun _ => restoreCurrentMount_same env ht) fun _ => Ends.pure ht
        · let mount : Mount := ⟨⟨true, fsTypeFromName fsType, partition, probeBlockdev⟩, normalized⟩
          refine Ends.bind (Q := fun _ u => SameMounts (addMount emptyIdx mount s) u) ⟨trivial,
            ?_⟩ fun _ u hu => ?_
          · obtain ⟨cache, rfl⟩ := ht
            exact ⟨rfl, rfl⟩
          refine Traced.Ends.reads_bind ?_
          refine Ends.bind (Q := fun _ v => SameMounts (addMount emptyIdx mount s) v) ?_ fun _ v hv => ?_
          · refine Traced.Ends.ite (fun _ => ⟨trivial, hu⟩) fun _ => ?_
            exact Traced.Ends.ite (fun _ => restoreCurrentMount_ends env _ _ _ _ hu) fun _ =>
              Ends.pure hu
          refine Ends.bind (fsCacheInvalidateAll_ends env ⟨v.cache, rfl⟩) fun _ w hw => ?_
          exact Ends.pure (.added emptyIdx mount hfree hnew rfl (mountPath_of_normalize hpath) (hv.trans hw.mounts))

def Restored (s t : MountState σ) : Prop :=
  t.cache.machine = s.cache.machine ∨ ∃ x, t.cache.machine = (env.init s.currentFs
    (FileCalls.fileMountPartitionHint s.mounts s.currentMountPartition)
    (FileCalls.fileBlockdevHint s.toFileState s.currentBlockdev) x).2

/-- A mount that fails goes back to the mount that was current. -/
theorem fileMount_restored (probeBlockdev : Int) (mountPath fsType : CString) (partition : Int)
    (hfs : s.currentFs ≠ .none) (hcurrent : s.currentMountPath ≠ []) :
    Ends (fun ok t => ok = false → Restored env s t)
      (fileMount env probeBlockdev mountPath fsType partition) s := by
  have hself : ∀ ok, ok = false → Restored env s s := fun _ _ => .inl rfl
  unfold fileMount
  cases normalizeMountPath mountPath with
  | none => exact Ends.pure (hself false)
  | some normalized =>
    refine Traced.Ends.ite (fun _ => Ends.pure (hself false)) fun _ => Traced.Ends.reads_bind ?_
    dsimp only [id]
    cases findEmpty s.mounts normalized (List.finRange 8) none with
    | none => exact Ends.pure (hself false)
    | some found =>
      cases found with
      | none => exact Ends.pure (hself false)
      | some emptyIdx =>
        refine Ends.bind (fsInitByType_ends env _ _ _ ⟨s.cache, rfl⟩) fun ok t ht => ?_
        refine Traced.Ends.ite (fun _ => ?_) fun _ => ?_
        · rw [if_pos ⟨hfs, hcurrent⟩]
          refine Ends.bind (Q := fun _ u => Restored env s u) ?_ fun _ u hu => Ends.pure fun _ => hu
          obtain ⟨cache, rfl⟩ := ht
          unfold restoreCurrentMount
          rw [if_neg (by simpa using ⟨hfs, hcurrent⟩)]
          refine Ends.bind (Q := fun _ u => Restored env s u) ⟨trivial,
            .inr ⟨cache.machine, ?_⟩⟩ fun ok u hu => ?_
          · show ((FileCalls.fsInitByType env.toEnv s.currentFs s.currentMountPartition s.currentBlockdev).state
              { s.toFileState with cache := cache }).cache.machine = _
            unfold FileCalls.fsInitByType
            rw [Traced.state_bind, Traced.result_reads, if_neg hfs]
            rfl
          · exact Traced.Ends.ite (fun _ => Ends.pure hu) fun _ => ⟨trivial, hu⟩
        · refine Ends.bind (Q := fun _ _ => True) ⟨trivial, trivial⟩ fun _ u _ => ?_
          refine Traced.Ends.reads_bind ?_
          refine Ends.bind (Q := fun _ _ => True) ⟨trivial, trivial⟩ fun _ v _ => ?_
          refine Ends.bind (Q := fun _ _ => True) ⟨trivial, trivial⟩ fun _ w _ => ?_
          exact Ends.pure fun hfalse => nomatch hfalse

/-- Syncing leaves the mounts alone. -/
theorem fileSyncAll_ends (h : Same s t) : Ends (fun _ u => Same s u) (fileSyncAll env) t := by
  unfold fileSyncAll
  refine Ends.bind (onCache_ends _ h) fun _ t ht => ?_
  refine Ends.bind (onMachine_ends _ ht) fun _ t ht => ?_
  refine Ends.bind (fsCacheInvalidateAll_ends env ht) fun _ t ht => ?_
  exact Traced.Ends.reads_bind (Ends.pure ht)

/-- Trying the mounts one after the other leaves the table alone. -/
theorem activateFrom_ends (js : List (Fin 8)) (h : SameMounts s t) :
    Ends (fun _ u => SameMounts s u) (activateFrom env js) t := by
  induction js generalizing t with
  | nil => exact Ends.pure h
  | cons j js ih =>
    unfold activateFrom
    refine Traced.Ends.reads_bind (Traced.Ends.ite (fun _ => ?_) fun _ => ih h)
    refine Ends.bind (restoreCurrentMount_ends env _ _ _ _ h) fun activated u hu => ?_
    exact Traced.Ends.ite (fun _ => Ends.pure hu) fun _ => ih hu

/-- `file_umount` removes one entry, or fails and leaves the table alone. -/
theorem fileUmount_change (mountPath : CString) : Ends (Change s) (fileUmount env mountPath) s := by
  have hself : Same s s := ⟨s.cache, rfl⟩
  unfold fileUmount
  cases hpath : normalizeMountPath mountPath with
  | none => exact Ends.pure (.same hself)
  | some normalized =>
    refine Traced.Ends.reads_bind ?_
    cases hfind : (List.finRange 8).find? fun i => (s.mounts i).mounted && (s.mounts i).path == normalized with
    | none => exact Ends.pure (.same hself)
    | some i =>
      have hi := List.find?_some hfind
      rw [Bool.and_eq_true] at hi
      refine Ends.bind (fileSyncAll_ends env hself) fun ok t ht => ?_
      refine Traced.Ends.ite (fun _ => Ends.pure (.same ht)) fun _ => ?_
      refine Ends.bind (Q := fun _ u => SameMounts (removeMount i s) u) ⟨trivial,
        ?_⟩ fun _ u hu => ?_
      · obtain ⟨cache, rfl⟩ := ht
        exact ⟨rfl, rfl⟩
      refine Traced.Ends.reads_bind ?_
      refine Ends.bind (Q := fun _ v => SameMounts (removeMount i s) v) ?_ fun _ v hv => ?_
      · refine Traced.Ends.ite (fun _ => ?_) fun _ => Ends.pure hu
        refine Ends.bind (Q := fun _ v => SameMounts (removeMount i s) v) ?_ fun activated v hv =>
          ?_
        · exact Traced.Ends.ite (fun _ => activateFrom_ends env _ hu) fun _ => Ends.pure hu
        · exact Traced.Ends.ite (fun _ => ⟨trivial, hv⟩) fun _ => Ends.pure hv
      refine Ends.bind (fsCacheInvalidateAll_ends env ⟨v.cache, rfl⟩) fun _ w hw => ?_
      exact Ends.pure (.removed i hi.1 (hv.trans hw.mounts))

/-- A drive letter is the path of a mount point. -/
theorem mountPath_drive {upper : UInt8} {net : Fin 26} (h : netIndex upper = some net) :
    MountPath [upper, 0x3A, pathSeparator] := by
  unfold netIndex at h
  split at h
  · next hupper =>
    exact ⟨upper, [], ⟨UInt8.le_iff_toNat_le.mpr hupper.1, UInt8.le_iff_toNat_le.mpr hupper.2⟩,
      fun _ hn => absurd hn List.not_mem_nil, Nat.zero_le _, rfl, Nat.lt_of_sub_pos (by decide : 0 < 125)⟩
  · cases h

/-- Mapping a drive adds one entry, or fails and leaves the table alone. -/
theorem fileMapNetworkDrive_change (drive : UInt8) (server : CString) (port : UInt16)
    (share : CString) :
    Ends (Change s) (fileMapNetworkDrive env drive server port share) s := by
  have hself : Same s s := ⟨s.cache, rfl⟩
  unfold fileMapNetworkDrive
  dsimp only
  cases hnet : netIndex (driveUpper drive) with
  | none => exact Ends.pure (.same hself)
  | some net =>
    refine Traced.Ends.ite (fun _ => Ends.pure (.same hself)) fun _ => Traced.Ends.reads_bind ?_
    refine Traced.Ends.ite (fun _ => Ends.pure (.same hself)) fun _ => ?_
    refine Traced.Ends.ite (fun _ => Ends.pure (.same hself)) fun _ => ?_
    dsimp only [id]
    cases hempty : findEmpty s.mounts [driveUpper drive, 0x3A, pathSeparator] (List.finRange 8) none with
    | none => exact Ends.pure (.same hself)
    | some found =>
      cases found with
      | none => exact Ends.pure (.same hself)
      | some emptyIdx =>
        obtain ⟨hnew, hfree⟩ := findEmpty_all hempty
        refine Ends.bind (onMachine_ends _ hself) fun ok t ht => ?_
        refine Traced.Ends.ite (fun _ => Ends.pure (.same ht)) fun _ => ?_
        let mount : Mount :=
          ⟨{ s.mounts emptyIdx with mounted := true, fsType := .netfs, partition := -1 }, [driveUpper drive, 0x3A, pathSeparator]⟩
        refine Ends.bind (Q := fun _ u => SameMounts (addMount emptyIdx mount s) u) ⟨trivial,
          ?_⟩ fun _ u hu => ?_
        · obtain ⟨cache, rfl⟩ := ht
          exact ⟨rfl, rfl⟩
        refine Ends.bind (Q := fun _ v => SameMounts (addMount emptyIdx mount s) v) ⟨trivial,
          hu⟩ fun _ v hv => ?_
        refine Ends.bind (fsCacheInvalidateAll_ends env ⟨v.cache, rfl⟩) fun _ w hw => ?_
        exact Ends.pure (.added emptyIdx mount hfree hnew rfl (mountPath_drive hnet) (hv.trans hw.mounts))

/-- Every call adds an entry, removes one, or leaves the table alone. -/
theorem mountCall_change (call : MountCall) : Ends (Change s) (mountCall env call) s := by
  cases call with
  | mount probeBlockdev mountPath fsType partition =>
    exact fileMount_change env probeBlockdev mountPath fsType partition
  | umount mountPath => exact fileUmount_change env mountPath
  | mapNetworkDrive drive server port share =>
    exact fileMapNetworkDrive_change env drive server port share

end

def mountedEntries (mounts : Fin 8 → Mount) : Nat :=
  (List.finRange 8).countP fun i => (mounts i).mounted

structure Table (s : MountState σ) : Prop where
  count : s.mountCount = mountedEntries s.mounts
  paths : ∀ i, (s.mounts i).mounted = true → MountPath (s.mounts i).path
  distinct : ∀ i j, (s.mounts i).mounted = true → (s.mounts j).mounted = true → (s.mounts i).path = (s.mounts j).path → i = j

/-- An update changes the number of mounted entries by the entry's own part. -/
theorem mountedEntries_update (mounts : Fin 8 → Mount) (i : Fin 8) (mount : Mount) :
    mountedEntries (Function.update mounts i mount) + (mounts i).mounted.toNat =
      mountedEntries mounts + mount.mounted.toNat := by
  have hsplit (f : Fin 8 → Mount) : mountedEntries f =
      (f i).mounted.toNat + ((List.finRange 8).erase i).countP fun j => (f j).mounted := by
    have hperm := (List.perm_cons_erase (List.mem_finRange i)).countP_eq fun j => (f j).mounted
    unfold mountedEntries
    rw [hperm, List.countP_cons]
    cases (f i).mounted <;> simp [Nat.add_comm]
  have hrest : (((List.finRange 8).erase i).countP fun j => (Function.update mounts i mount j).mounted) =
      ((List.finRange 8).erase i).countP fun j => (mounts j).mounted := by
    refine List.countP_congr fun j hj => ?_
    have hne : j ≠ i := by
      rintro rfl
      exact (List.nodup_finRange 8).not_mem_erase hj
    rw [Function.update_of_ne hne]
  rw [hsplit (Function.update mounts i mount), hsplit mounts, hrest, Function.update_self]
  omega

/-- The invariant is one of the table. -/
theorem Table.sameMounts {s t : MountState σ} (h : Table s) (hst : SameMounts s t) : Table t := by
  obtain ⟨hmounts, hcount⟩ := hst
  refine ⟨?_, ?_, ?_⟩
  · rw [hmounts, hcount]
    exact h.count
  · rw [hmounts]
    exact h.paths
  · rw [hmounts]
    exact h.distinct

/-- A new path in a free entry keeps the invariant. -/
theorem Table.addMount {s : MountState σ} (h : Table s) {i : Fin 8} {mount : Mount}
    (hfree : (s.mounts i).mounted = false) (hnew : ¬ Mounted s.mounts mount.path)
    (hmounted : mount.mounted = true) (hpath : MountPath mount.path) :
    Table (addMount i mount s) := by
  refine ⟨?_, ?_, ?_⟩
  · have hcount := mountedEntries_update s.mounts i mount
    rw [hfree, hmounted] at hcount
    show s.mountCount + 1 = (mountedEntries (Function.update s.mounts i mount) : Int)
    rw [h.count]
    simp only [Bool.toNat_true, Bool.toNat_false] at hcount
    omega
  · intro j hj
    change (Function.update s.mounts i mount j).mounted = true at hj
    show MountPath (Function.update s.mounts i mount j).path
    by_cases hji : j = i
    · subst hji
      rwa [Function.update_self]
    · rw [Function.update_of_ne hji] at hj ⊢
      exact h.paths j hj
  · intro j k hj hk hpaths
    change (Function.update s.mounts i mount j).mounted = true at hj
    change (Function.update s.mounts i mount k).mounted = true at hk
    change (Function.update s.mounts i mount j).path = (Function.update s.mounts i mount k).path at hpaths
    by_cases hji : j = i <;> by_cases hki : k = i
    · rw [hji, hki]
    · rw [hji, Function.update_self, Function.update_of_ne hki] at hpaths
      rw [Function.update_of_ne hki] at hk
      exact absurd ⟨k, hk, hpaths.symm⟩ hnew
    · rw [hki, Function.update_self, Function.update_of_ne hji] at hpaths
      rw [Function.update_of_ne hji] at hj
      exact absurd ⟨j, hj, hpaths⟩ hnew
    · rw [Function.update_of_ne hji] at hj hpaths
      rw [Function.update_of_ne hki] at hk hpaths
      exact h.distinct j k hj hk hpaths

/-- Removing a mounted entry keeps the invariant. -/
theorem Table.removeMount {s : MountState σ} (h : Table s) {i : Fin 8}
    (hmounted : (s.mounts i).mounted = true) :
    Table (removeMount i s) := by
  have hstill (j : Fin 8) (hj : ((MountTable.removeMount i s).mounts j).mounted = true) : j ≠ i ∧ (s.mounts j).mounted = true ∧
      ((MountTable.removeMount i s).mounts j).path = (s.mounts j).path := by
    have hji : j ≠ i := by
      rintro rfl
      change (Function.update s.mounts j (unmounted (s.mounts j)) j).mounted = true at hj
      rw [Function.update_self] at hj
      cases hj
    change (Function.update s.mounts i (unmounted (s.mounts i)) j).mounted = true at hj
    show _ ∧ _ ∧ (Function.update s.mounts i (unmounted (s.mounts i)) j).path = _
    rw [Function.update_of_ne hji] at hj ⊢
    exact ⟨hji, hj, rfl⟩
  refine ⟨?_, ?_, ?_⟩
  · have hcount := mountedEntries_update s.mounts i (unmounted (s.mounts i))
    rw [hmounted] at hcount
    change _ + 1 = _ + 0 at hcount
    show s.mountCount - 1 = (mountedEntries (Function.update s.mounts i (unmounted (s.mounts i))) : Int)
    rw [h.count]
    omega
  · intro j hj
    obtain ⟨-, hj', hpath⟩ := hstill j hj
    rw [hpath]
    exact h.paths j hj'
  · intro j k hj hk hpaths
    obtain ⟨-, hj', hpathj⟩ := hstill j hj
    obtain ⟨-, hk', hpathk⟩ := hstill k hk
    rw [hpathj, hpathk] at hpaths
    exact h.distinct j k hj' hk' hpaths

/-- Every change of a call keeps the invariant. -/
theorem Table.change {s t : MountState σ} {ok : Bool} (h : Table s) (hchange : Change s ok t) :
    Table t := by
  cases hchange with
  | same hst => exact h.sameMounts hst.mounts
  | added i mount hfree hnew hmounted hpath hst =>
    exact (h.addMount hfree hnew hmounted hpath).sameMounts hst
  | removed i hmounted hst => exact (h.removeMount hmounted).sameMounts hst

/-- The table of `file_init` keeps the invariant. -/
theorem table_fileInit (machine : σ) : Table (fileInit machine) :=
  ⟨rfl, fun _ hmounted => (Bool.false_ne_true hmounted).elim, fun _ _ hmounted => (Bool.false_ne_true hmounted).elim⟩

/-- Every sequence of calls keeps the invariant. -/
theorem table_runCalls (env : MountEnv σ) (calls : List MountCall) {s : MountState σ}
    (h : Table s) :
    Table (runCalls env calls s) := by
  induction calls generalizing s with
  | nil => exact h
  | cons call calls ih => exact ih (h.change (mountCall_change env call).2)

def SameTable (s t : MountState σ) : Prop :=
  t.mounts = s.mounts ∧ t.mountCount = s.mountCount ∧ t.netMap = s.netMap ∧ t.currentFs = s.currentFs ∧
    t.currentMountPath = s.currentMountPath ∧ t.currentMountPartition = s.currentMountPartition ∧
    t.currentBlockdev = s.currentBlockdev

/-- In every state that calls of `file_mount`, `file_umount` and `file_map_network_drive` lead to:
the count is that of the mounted entries, their paths are distinct, `find_mount_point` answers for
every path with the mounted entry that has the longest prefix of it by components, a call that fails
leaves the table and the current mount point as they are, and a `file_mount` that fails leaves the
driver of the current mount point at work. -/
theorem mountTable_kept (env : MountEnv σ) (machine : σ) (calls : List MountCall) :
    let s := runCalls env calls (fileInit machine)
    s.mountCount = mountedEntries s.mounts ∧
    (∀ i j, (s.mounts i).mounted = true → (s.mounts j).mounted = true → (s.mounts i).path = (s.mounts j).path → i = j) ∧
    (∀ path, Longest s.mounts path (findMountPoint s.mounts path)) ∧
    (∀ call, (mountCall env call).result s = false → SameTable s ((mountCall env call).state s)) ∧
    ∀ probeBlockdev mountPath fsType partition, (fileMount env probeBlockdev mountPath fsType partition).result s = false →
      s.currentFs ≠ .none → s.currentMountPath ≠ [] →
      Restored env s ((fileMount env probeBlockdev mountPath fsType partition).state s) := by
  intro s
  have h : Table s := table_runCalls env calls (table_fileInit machine)
  refine ⟨h.count, h.distinct, findMountPoint_spec h.paths, ?_,
    fun probeBlockdev mountPath fsType partition hfailed hfs hcurrent =>
    (fileMount_restored env probeBlockdev mountPath fsType partition hfs hcurrent).2 hfailed⟩
  intro call hfailed
  have hchange := (mountCall_change (s := s) env call).2
  rw [hfailed] at hchange
  cases hchange with
  | same hsame =>
    obtain ⟨cache, hstate⟩ := hsame
    rw [hstate]
    exact ⟨rfl, rfl, rfl, rfl, rfl, rfl, rfl⟩

end Monios.Analysis.MountTables
