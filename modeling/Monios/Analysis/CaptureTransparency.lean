import Monios.Model.ExecRun

/-!
# What a captured child leaves of its caller

`exec_run_capture` saves no user memory: its comment has it that the child has pages of its own. But
`exec_run_with_flags` makes no address space, and loads the child where the caller's code, data and
stack are.
-/

set_option autoImplicit false

namespace Monios.Analysis

open Monios.Library Monios.Model

/-- The heap holds the blocks of another one, and besides at most some that start at the addresses
in `own`. -/
structure HoldsBesides (before : KernelHeap) (own : List Nat) (h : KernelHeap) : Prop where
  fresh : ∀ p ∈ own, ∀ n, ¬ before.Live p n
  live : ∀ q n, q ∉ own → (h.Live q n ↔ before.Live q n)

namespace HoldsBesides

variable {before h h' : KernelHeap} {own own' : List Nat} {p size : Nat}

theorem refl (h : KernelHeap) : HoldsBesides h [] h :=
  ⟨fun _ hp => absurd hp List.not_mem_nil, fun _ _ _ => Iff.rfl⟩

theorem of_mem_iff (hh : HoldsBesides before own h) (hown : ∀ q, q ∈ own ↔ q ∈ own') :
    HoldsBesides before own' h := by
  refine ⟨?_, ?_⟩
  · intro q hq
    exact hh.fresh q ((hown q).mpr hq)
  · intro q n hq
    exact hh.live q n fun hm => hq ((hown q).mp hm)

theorem kmalloc (hh : HoldsBesides before own h) (hm : Model.kmalloc h size = some (p, h')) :
    HoldsBesides before (p :: own) h' := by
  obtain ⟨hfree, m, hlive⟩ := kmalloc_live hm
  refine ⟨?_, ?_⟩
  · intro q hq
    rcases List.mem_cons.mp hq with rfl | hq
    · intro n hl
      by_cases ho : q ∈ own
      · exact hh.fresh q ho n hl
      · exact hfree n ((hh.live q n ho).mpr hl)
    · exact hh.fresh q hq
  · intro q n hq
    obtain ⟨hne, ho⟩ := not_or.mp (fun hc => hq (List.mem_cons.mpr hc))
    rw [hlive q n, hh.live q n ho]
    exact or_iff_left fun hc => hne hc.1

theorem kfree (hh : HoldsBesides before (p :: own) h) :
    HoldsBesides before own (Model.kfree h p) := by
  refine ⟨fun q hq => hh.fresh q (List.mem_cons_of_mem p hq), ?_⟩
  intro q n hq
  rw [kfree_live]
  by_cases hqp : q = p
  · subst hqp
    have hnot := hh.fresh q List.mem_cons_self n
    exact ⟨fun hl => absurd rfl hl.2, fun hl => absurd hl hnot⟩
  · rw [hh.live q n fun hm => (List.mem_cons.mp hm).elim hqp hq]
    exact and_iff_left hqp

theorem kmalloc_kfree (hh : HoldsBesides before own h) (hm : Model.kmalloc h size = some (p, h')) :
    HoldsBesides before own (Model.kfree h' p) :=
  (hh.kmalloc hm).kfree

theorem execFreeLoadedDlls {dlls : List LoadedDll}
    (hh : HoldsBesides before (dlls.map LoadedDll.image ++ own) h) :
    HoldsBesides before own (Model.execFreeLoadedDlls h dlls) := by
  unfold Model.execFreeLoadedDlls
  induction dlls generalizing h with
  | nil => exact hh
  | cons dll dlls ih => exact ih hh.kfree

theorem trans_nil (hh : HoldsBesides before own h) (hs : HoldsBesides h [] h') :
    HoldsBesides before own h' := by
  refine ⟨hh.fresh, ?_⟩
  intro q n hq
  rw [hs.live q n List.not_mem_nil]
  exact hh.live q n hq

end HoldsBesides

def BindState.Holds (before : KernelHeap) (own : List Nat) (s : BindState) : Prop :=
  HoldsBesides before (s.dlls.map LoadedDll.image ++ own) s.heap

section

variable (env : ExecEnv) {before : KernelHeap} {own : List Nat}

theorem execMapDll_holds (canonical : List UInt8) {s : BindState}
    (hs : BindState.Holds before own s) :
    BindState.Holds before own (execMapDll env canonical s).2 := by
  unfold execMapDll
  simp only []
  split
  · exact hs
  split
  · exact hs
  next image heap hm =>
    split
    · exact HoldsBesides.kmalloc_kfree hs hm
    split
    · exact HoldsBesides.kmalloc_kfree hs hm
    next payload _ =>
      split
      · exact HoldsBesides.kmalloc_kfree hs hm
      split
      · exact HoldsBesides.kmalloc_kfree hs hm
      · -- the image stays, at the end of the table
        refine (HoldsBesides.kmalloc hs hm).of_mem_iff fun q => ?_
        simp only [List.map_append, List.map_cons, List.map_nil, List.mem_cons, List.mem_append,
          List.not_mem_nil, or_false]
        grind

variable {bind : List UInt8 → BindState → Bool × BindState}

theorem execLoadDll_holds (hbind : ∀ payload s, BindState.Holds before own s →
    BindState.Holds before own (bind payload s).2)
    (name : List UInt8) {s : BindState} (hs : BindState.Holds before own s) :
    BindState.Holds before own (execLoadDll env bind name s).2 := by
  unfold execLoadDll
  split
  · exact hs
  next canonical _ =>
    split
    · exact hs
    split
    · exact hs
    have hmap := execMapDll_holds env canonical hs
    split
    · next heq => rwa [heq] at hmap
    · next dll s' heq =>
        rw [heq] at hmap
        have := hbind dll.payload s' hmap
        split
        · next heq => rwa [heq] at this
        · next heq => rwa [heq] at this

theorem execBindDescriptors_holds
    (hbind : ∀ payload s, BindState.Holds before own s →
      BindState.Holds before own (bind payload s).2)
    (payload : List UInt8) (rva n i : Nat) {s : BindState} (hs : BindState.Holds before own s) :
    BindState.Holds before own (execBindDescriptors env bind payload rva n i s).2 := by
  induction n generalizing i s with
  | zero => exact hs
  | succ n ih =>
    unfold execBindDescriptors
    split
    · exact hs
    split
    · exact hs
    next o _ =>
      split
      · exact hs
      split
      · exact hs
      split
      · exact hs
      next name _ =>
        have hload := execLoadDll_holds env hbind name hs
        split
        · next heq => rwa [heq] at hload
        · next dll s' heq =>
            rw [heq] at hload
            -- the thunks are in the memory, not in the heap
            simp only []
            split
            · exact hload
            · exact ih (i + 1) hload

theorem execBindImports_holds (fuel : Nat) (payload : List UInt8) {s : BindState}
    (hs : BindState.Holds before own s) :
    BindState.Holds before own (execBindImports env fuel payload s).2 := by
  induction fuel generalizing payload s with
  | zero => exact hs
  | succ fuel ih =>
    unfold execBindImports
    simp only []
    split
    · exact hs
    split
    · exact hs
    · exact execBindDescriptors_holds env (fun payload s hs => ih payload hs) payload _ _ 0 hs

end

def ExecEnv.Releases (env : ExecEnv) : Prop :=
  ∀ asDriver entry info w, HoldsBesides w.heap [] (env.enter asDriver entry info w).1.heap

/-- The image that passes all checks, so that it will be loaded: the path leads to a file that is no
`.sys`, the file fits into the heap and can be read, and it is a program that is valid and not a
DLL. -/
def Loadable (env : ExecEnv) (call : ExecCall) (heap : KernelHeap) : Prop :=
  ∃ resolved, pathResolve call.cwd call.path pathMaxLen = some resolved ∧
    execPathHasSuffix resolved (ascii ".sys") = false ∧
    0 < env.files.size resolved ∧ env.files.isDir resolved = false ∧
    (kmalloc heap (env.files.size resolved).toNat).isSome ∧
    (env.files.read resolved (env.files.size resolved).toNat).length = (env.files.size resolved).toNat ∧
    ∃ r, execPrepareImage env resolved (env.files.read resolved (env.files.size resolved).toNat) = some r ∧
      (execValidatePreparedImage env r.1).isSome ∧ peIsDll r.1 = false

theorem execOpenImage_cases (env : ExecEnv) (call : ExecCall) (w : ExecWorld) :
    (Loadable env call w.heap ∧
      ∃ opened heap size, kmalloc w.heap size = some (opened.image, heap) ∧
      execOpenImage env call w = (some opened, { w with heap := heap })) ∨
    (¬ Loadable env call w.heap ∧ ∃ heap, HoldsBesides w.heap [] heap ∧
      execOpenImage env call w = (none, { w with heap := heap })) := by
  unfold execOpenImage Loadable
  cases hpath : pathResolve call.cwd call.path pathMaxLen with
  | none =>
    refine .inr ⟨?_, w.heap, .refl _, rfl⟩
    rintro ⟨resolved, h, _⟩
    exact nomatch h
  | some resolved =>
    by_cases hsys : execPathHasSuffix resolved (ascii ".sys") = true
    · refine .inr ⟨?_, w.heap, .refl _, by simp only [hsys, if_true]⟩
      rintro ⟨r, h, hs, _⟩
      obtain rfl := Option.some.inj h
      rw [hsys] at hs
      exact nomatch hs
    by_cases hfile : env.files.size resolved ≤ 0 ∨ env.files.isDir resolved = true
    · refine .inr ⟨?_, w.heap, .refl _, by simp only [hsys, hfile, if_true]; rfl⟩
      rintro ⟨r, h, _, hs, hd, _⟩
      obtain rfl := Option.some.inj h
      rcases hfile with hf | hf
      · omega
      · rw [hf] at hd
        exact nomatch hd
    simp only [hsys, hfile, if_false, Bool.false_eq_true]
    cases hm : kmalloc w.heap (env.files.size resolved).toNat with
    | none =>
      refine .inr ⟨?_, w.heap, .refl _, rfl⟩
      rintro ⟨r, h, _, _, _, hs, _⟩
      obtain rfl := Option.some.inj h
      rw [hm] at hs
      exact nomatch hs
    | some r =>
      obtain ⟨image, heap⟩ := r
      have hfreed : HoldsBesides w.heap [] (kfree heap image) :=
        (HoldsBesides.refl w.heap).kmalloc_kfree hm
      simp only []
      split
      · next hlen =>
          refine .inr ⟨?_, _, hfreed, rfl⟩
          rintro ⟨r, h, _, _, _, _, hs, _⟩
          obtain rfl := Option.some.inj h
          exact hlen hs
      next hlen =>
        cases hprep : execPrepareImage env resolved (env.files.read resolved (env.files.size resolved).toNat) with
        | none =>
          refine .inr ⟨?_, _, hfreed, rfl⟩
          rintro ⟨r, h, _, _, _, _, _, r', hs, _⟩
          obtain rfl := Option.some.inj h
          rw [hprep] at hs
          exact nomatch hs
        | some r =>
          obtain ⟨payload, flags⟩ := r
          cases hval : execValidatePreparedImage env payload with
          | none =>
            refine .inr ⟨?_, kfree heap image, hfreed, by simp only [Option.bind_some, hval, Option.map_none]⟩
            rintro ⟨r, h, _, _, _, _, _, r', hs, hv, _⟩
            obtain rfl := Option.some.inj h
            rw [hprep] at hs
            obtain rfl := Option.some.inj hs
            rw [hval] at hv
            exact nomatch hv
          | some scan =>
            simp only [Option.bind_some, hval, Option.map_some]
            split
            · next hdll =>
                refine .inr ⟨?_, _, hfreed, rfl⟩
                rintro ⟨r, h, _, _, _, _, _, r', hs, _, hd⟩
                obtain rfl := Option.some.inj h
                rw [hprep] at hs
                obtain rfl := Option.some.inj hs
                rw [hdll] at hd
                exact nomatch hd
            · next hdll =>
                rw [not_or] at hfile
                refine .inl ⟨⟨resolved, rfl, ?_, by omega, ?_, by rw [hm]; rfl, not_not.mp hlen, _, hprep, ?_, ?_⟩,
                  _, _, _, hm, rfl⟩
                · exact Bool.eq_false_iff.mpr hsys
                · exact Bool.eq_false_iff.mpr hfile.2
                · rw [hval]
                  rfl
                · exact Bool.eq_false_iff.mpr hdll

section

variable {env : ExecEnv}

theorem execStart_holds (henter : ExecEnv.Releases env) (call : ExecCall) (opened : OpenedImage)
    {dlls : List LoadedDll} {before : KernelHeap} {w : ExecWorld}
    (hw : HoldsBesides before (dlls.map LoadedDll.image ++ [opened.image]) w.heap) :
    HoldsBesides before [] (execStart env call opened dlls w).2.heap := by
  have hgiveUp : HoldsBesides before [] (kfree (execFreeLoadedDlls w.heap dlls) opened.image) :=
    (HoldsBesides.execFreeLoadedDlls hw).kfree
  unfold execStart
  simp only []
  split
  · exact hgiveUp
  split
  · exact hgiveUp
  split
  · exact hgiveUp
  split
  · exact hgiveUp
  next stack heap hm =>
    -- the kernel stack goes first, then the DLLs and the image
    have hstack := hw.kmalloc hm
    apply HoldsBesides.kfree
    apply HoldsBesides.execFreeLoadedDlls
    apply HoldsBesides.kfree
    exact HoldsBesides.trans_nil hstack (henter _ _ _ { w with memory := _, heap := heap, context := some _ })

theorem execStart_context (call : ExecCall) (opened : OpenedImage) (dlls : List LoadedDll)
    {w : ExecWorld} (hw : w.context = none) :
    (execStart env call opened dlls w).2.context = none := by
  unfold execStart
  simp only []
  split
  · exact hw
  split
  · exact hw
  split
  · exact hw
  split
  · exact hw
  · rfl

theorem execRunWithFlags_holds (henter : ExecEnv.Releases env) (call : ExecCall) (w : ExecWorld) :
    HoldsBesides w.heap [] (execRunWithFlags env call w).2.heap := by
  unfold execRunWithFlags
  split
  · exact .refl _
  rcases execOpenImage_cases env call w with ⟨_, opened, heap, size, hm, hopen⟩ | ⟨_, heap, hfreed, hopen⟩
  · rw [hopen]
    have hopened : HoldsBesides w.heap [opened.image] heap := (HoldsBesides.refl w.heap).kmalloc hm
    simp only []
    split
    · exact hopened.kfree
    next memory _ =>
      have hstart : BindState.Holds w.heap [opened.image] { memory := memory, heap := heap, dlls := [] } := hopened
      have hbind := execBindImports_holds env (execDllMax + 1) opened.payload hstart
      split
      · next heq =>
          rw [heq] at hbind
          exact (HoldsBesides.execFreeLoadedDlls hbind).kfree
      · next heq =>
          rw [heq] at hbind
          exact execStart_holds henter call opened hbind
  · rw [hopen]
    exact hfreed

theorem execRunWithFlags_context (call : ExecCall) (w : ExecWorld) :
    (execRunWithFlags env call w).2.context = w.context := by
  unfold execRunWithFlags
  split
  · rfl
  next hnone =>
    rw [Bool.not_eq_true, Option.isSome_eq_false_iff, Option.isNone_iff_eq_none] at hnone
    rcases execOpenImage_cases env call w with ⟨_, opened, heap, size, _, hopen⟩ | ⟨_, heap, _, hopen⟩
    · rw [hopen]
      simp only []
      split
      · rfl
      split
      · rfl
      next s _ =>
        refine Eq.trans (execStart_context call opened s.dlls ?_) hnone.symm
        exact hnone
    · rw [hopen]

end

def ExecWorld.withRegion (w : ExecWorld) (contents : Memory) : ExecWorld :=
  { w with memory := fun a => if UserRegion a then contents a else w.memory a }

structure Transparent (w w' : ExecWorld) : Prop where
  memory : ∀ a, UserRegion a → w'.memory a = w.memory a
  context : w'.context = w.context
  live : ∀ p n, w'.heap.Live p n ↔ w.heap.Live p n

theorem clearMem_withRegion (w : ExecWorld) (contents contents' : Memory) :
    clearMem (ExecWorld.withRegion w contents).memory 0x04000000 0x400000 =
      clearMem (ExecWorld.withRegion w contents').memory 0x04000000 0x400000 := by
  funext a
  unfold clearMem
  split
  · rfl
  next hout =>
    have hnot : ¬ UserRegion a := by
      rintro ⟨hmin, hmax⟩
      rw [UInt64.le_iff_toNat_le] at hmin
      rw [UInt64.lt_iff_toNat_lt] at hmax
      exact hout ⟨hmin, hmax⟩
    simp only [ExecWorld.withRegion, hnot, if_false]

section

variable {env : ExecEnv} {call : ExecCall} {w : ExecWorld}

theorem execOpenImage_memory (env : ExecEnv) (call : ExecCall) (w : ExecWorld) (m : Memory) :
    execOpenImage env call { w with memory := m } =
      ((execOpenImage env call w).1, { (execOpenImage env call w).2 with memory := m }) := by
  unfold execOpenImage
  split
  · rfl
  simp only []
  split
  · rfl
  split
  · rfl
  split
  · rfl
  split
  · rfl
  split
  · rfl
  split <;> rfl

theorem transparent_of_not_loadable (h : w.context.isSome ∨ ¬ Loadable env call w.heap) :
    Transparent w (execRunWithFlags env call w).2 := by
  unfold execRunWithFlags
  split
  · exact ⟨fun _ _ => rfl, rfl, fun _ _ => Iff.rfl⟩
  next hnone =>
    rcases execOpenImage_cases env call w with ⟨hload, _⟩ | ⟨_, heap, hfreed, hopen⟩
    · exact absurd hload (h.resolve_left hnone)
    · rw [hopen]
      exact ⟨fun _ _ => rfl, rfl, fun p n => hfreed.live p n List.not_mem_nil⟩

theorem execRunWithFlags_withRegion (hnone : w.context = none) (hload : Loadable env call w.heap)
    (contents contents' : Memory) : execRunWithFlags env call (ExecWorld.withRegion w contents) =
      execRunWithFlags env call (ExecWorld.withRegion w contents') := by
  rcases execOpenImage_cases env call w with ⟨_, opened, heap, size, _, hopen⟩ | ⟨hnot, _⟩
  · have hregion (c : Memory) : execOpenImage env call (ExecWorld.withRegion w c) =
        (some opened, { w with heap := heap, memory := (ExecWorld.withRegion w c).memory }) := by
      have := execOpenImage_memory env call w (ExecWorld.withRegion w c).memory
      rwa [hopen] at this
    have hcontext (c : Memory) : (ExecWorld.withRegion w c).context = none := hnone
    have hclear := clearMem_withRegion w contents contents'
    unfold execRunWithFlags execLoadPeSections
    simp only [hcontext, hregion, hclear, Option.isSome_none, Bool.false_eq_true, if_false, if_true]
  · exact absurd hload hnot

theorem not_transparent_of_loadable (hnone : w.context = none) (hload : Loadable env call w.heap) :
    ¬ ∀ contents a, UserRegion a →
      (execRunWithFlags env call (ExecWorld.withRegion w contents)).2.memory a =
        (ExecWorld.withRegion w contents).memory a := by
  intro hall
  have hbase : UserRegion execUserAddressMin := by decide
  have hzero := hall (fun _ => 0) execUserAddressMin hbase
  have hone := hall (fun _ => 1) execUserAddressMin hbase
  rw [execRunWithFlags_withRegion hnone hload (fun _ => 1) (fun _ => 0), hzero] at hone
  simp [ExecWorld.withRegion, hbase] at hone

end

def CaptureLoads (env : ExecEnv) (call : CaptureCall) (w : ExecWorld) : Prop :=
  call.outCap ≠ 0 ∧ w.captureCap = none ∧ Loadable env call.toExecCall w.heap

theorem execRunCapture_transparent_iff (env : ExecEnv) (call : CaptureCall) (w : ExecWorld) :
    (∀ contents, Transparent (ExecWorld.withRegion w contents)
      (execRunCapture env call (ExecWorld.withRegion w contents)).2) ↔
      ¬ CaptureLoads env call w := by
  by_cases hearly : call.outCap = 0 ∨ w.captureCap.isSome
  · have hnot : ¬ CaptureLoads env call w := by
      rintro ⟨hcap, hnone, _⟩
      rw [hnone] at hearly
      exact hearly.elim hcap fun h => nomatch h
    refine iff_of_true ?_ hnot
    intro contents
    have : (ExecWorld.withRegion w contents).captureCap = w.captureCap := rfl
    unfold execRunCapture
    rw [this, if_pos hearly]
    exact ⟨fun _ _ => rfl, rfl, fun _ _ => Iff.rfl⟩
  · have hloads : CaptureLoads env call w ↔ Loadable env call.toExecCall w.heap := by
      rw [not_or, Bool.not_eq_true, Option.isSome_eq_false_iff, Option.isNone_iff_eq_none] at hearly
      exact ⟨fun h => h.2.2, fun h => ⟨hearly.1, hearly.2, h⟩⟩
    rw [hloads]
    -- the world that `exec_run_with_flags` is called in
    let inner : ExecWorld := { w with context := none, captureCap := some call.outCap, captured := [] }
    have hrun (contents : Memory) : (execRunCapture env call (ExecWorld.withRegion w contents)).2 =
        { (execRunWithFlags env call.toExecCall (ExecWorld.withRegion inner contents)).2 with
          context := w.context
          captureCap := none } := by
      have : (ExecWorld.withRegion w contents).captureCap = w.captureCap := rfl
      unfold execRunCapture
      rw [this, if_neg hearly]
      rfl
    constructor
    · intro hall hload
      apply not_transparent_of_loadable (w := inner) rfl hload
      intro contents a ha
      have := (hall contents).memory a ha
      rwa [hrun] at this
    · intro hnot contents
      have ht : Transparent _ (execRunWithFlags env call.toExecCall (ExecWorld.withRegion inner contents)).2 :=
        transparent_of_not_loadable (w := ExecWorld.withRegion inner contents) (.inr hnot)
      rw [hrun]
      exact ⟨ht.memory, rfl, ht.live⟩

theorem execRunWithFlags_transparent_iff (env : ExecEnv) (call : ExecCall) (w : ExecWorld) :
    (∀ contents, Transparent (ExecWorld.withRegion w contents)
      (execRunWithFlags env call (ExecWorld.withRegion w contents)).2) ↔
      ¬ (w.context = none ∧ Loadable env call w.heap) := by
  constructor
  · rintro hall ⟨hnone, hload⟩
    exact not_transparent_of_loadable hnone hload fun contents a ha => (hall contents).memory a ha
  · intro hnot contents
    apply transparent_of_not_loadable (w := ExecWorld.withRegion w contents)
    rcases not_and_or.mp hnot with h | h
    · exact .inl (Option.isSome_iff_ne_none.mpr h)
    · exact .inr h

/-- Whatever contents the caller has in its memory, it finds its memory, its context and the heap
unchanged after `exec_run_capture` just when the call does not get to loading an image, and after an
`exec_run_with_flags` that fails likewise.  Context and heap are kept by all calls, if the process
gives back what it makes the kernel allocate. -/
theorem transparent_iff_not_loaded (env : ExecEnv) : (∀ (call : CaptureCall) (w : ExecWorld),
      (∀ contents, Transparent (ExecWorld.withRegion w contents)
        (execRunCapture env call (ExecWorld.withRegion w contents)).2) ↔
        ¬ CaptureLoads env call w) ∧
    (∀ (call : ExecCall) (w : ExecWorld), (execRunWithFlags env call w).1.1 = false →
      ((∀ contents, Transparent (ExecWorld.withRegion w contents)
        (execRunWithFlags env call (ExecWorld.withRegion w contents)).2) ↔
        ¬ (w.context = none ∧ Loadable env call w.heap))) ∧ (ExecEnv.Releases env →
      (∀ (call : CaptureCall) (w : ExecWorld), (execRunCapture env call w).2.context = w.context ∧
        ∀ p n, (execRunCapture env call w).2.heap.Live p n ↔ w.heap.Live p n) ∧
      (∀ (call : ExecCall) (w : ExecWorld), (execRunWithFlags env call w).2.context = w.context ∧
        ∀ p n, (execRunWithFlags env call w).2.heap.Live p n ↔ w.heap.Live p n)) := by
  refine ⟨execRunCapture_transparent_iff env, fun call w _ => execRunWithFlags_transparent_iff env call w, ?_⟩
  intro henter
  constructor
  · intro call w
    unfold execRunCapture
    split
    · exact ⟨rfl, fun _ _ => Iff.rfl⟩
    · refine ⟨rfl, fun p n => ?_⟩
      exact (execRunWithFlags_holds henter call.toExecCall _).live p n List.not_mem_nil
  · intro call w
    refine ⟨execRunWithFlags_context call w, fun p n => ?_⟩
    exact (execRunWithFlags_holds henter call w).live p n List.not_mem_nil

def childProgram : List UInt8 :=
  le16 0x5A4D ++ List.replicate 58 0 ++ le32 64 ++
  [0x50, 0x45, 0, 0] ++ le16 0x8664 ++ le16 1 ++ List.replicate 12 0 ++ le16 240 ++ le16 2 ++
  le16 0x20B ++ List.replicate 14 0 ++ le32 0x1000 ++ List.replicate 4 0 ++ le32 0x04000000 ++
  le32 0 ++ le32 4096 ++ le32 512 ++ List.replicate 20 0 ++ le32 368 ++ le32 0 ++ le16 3 ++
  List.replicate 38 0 ++ le32 16 ++ List.replicate 128 0 ++
  List.replicate 8 0 ++ le32 16 ++ le32 0x1000 ++ le32 0 ++ le32 0 ++ List.replicate 12 0 ++
  le32 0x20000000

def childEnv : ExecEnv where
  files :=
    { size := fun path => if path = ascii "C:\\CGI.EXE" then 368 else -1
      isDir := fun _ => false
      present := fun path => path == ascii "C:\\CGI.EXE"
      read := fun _ n => childProgram.take n }
  verifyRzsHeader := fun _ => none
  scanPeResources := fun _ => some {}
  userName := ascii "web"
  enter := fun _ _ _ w => (w, ⟨true, 0⟩)

def serverWorld : ExecWorld where
  memory := fun _ => 1
  heap := { base := 0x100000, size := 0x100000, blocks := [⟨0xFFFE8, true⟩], fills := ⟨by decide, by decide⟩ }
  context := some
    { launchInfo := execUserDataBase, imageFlags := execImageFlagConsole, privilegeLevel := execPrivR3, cwd := ascii "C:\\"
      programPath := ascii "C:\\HTTPD.EXE", kernelStack := 0 }
  captureCap := none
  captured := []

def cgiCall : CaptureCall where
  path := ⟨ascii "C:\\CGI.EXE", by decide⟩
  outCap := 4096
  env := []

def missingCall : ExecCall where
  path := ⟨ascii "C:\\NONE.EXE", by decide⟩
  argv := []
  cwd := ⟨[], zero_notMem_nil⟩
  env := []
  runFlags := 0

theorem not_loadable_missingCall (heap : KernelHeap) : ¬ Loadable childEnv missingCall heap := by
  rintro ⟨resolved, hpath, _, hsize, _⟩
  have hres : pathResolve missingCall.cwd missingCall.path pathMaxLen = some (ascii "C:\\NONE.EXE") := by decide
  rw [hres] at hpath
  obtain rfl := Option.some.inj hpath
  have : childEnv.files.size (ascii "C:\\NONE.EXE") = -1 := by decide +kernel
  omega

theorem transparent_missingCall : ExecEnv.Releases childEnv ∧
    (execRunWithFlags childEnv missingCall { serverWorld with context := none }).1.1 = false ∧
    (∀ contents, Transparent (ExecWorld.withRegion { serverWorld with context := none } contents)
      (execRunWithFlags childEnv missingCall (ExecWorld.withRegion { serverWorld with context := none } contents)).2) ∧
    ∀ p n, (execRunCapture childEnv cgiCall serverWorld).2.heap.Live p n ↔ serverWorld.heap.Live p n := by
  have hreleases : ExecEnv.Releases childEnv := fun _ _ _ w => HoldsBesides.refl w.heap
  have hfails : (execRunWithFlags childEnv missingCall { serverWorld with context := none }).1.1 =
      false := by
    decide +kernel
  obtain ⟨_, hrun, hkeeps⟩ := transparent_iff_not_loaded childEnv
  refine ⟨hreleases, hfails, ?_, ((hkeeps hreleases).1 cgiCall serverWorld).2⟩
  apply (hrun missingCall { serverWorld with context := none } hfails).mpr
  rintro ⟨_, hload⟩
  exact not_loadable_missingCall _ hload

theorem not_transparent_cgi :
    ¬ ∀ (env : ExecEnv) (call : CaptureCall) (w : ExecWorld), Transparent w
      (execRunCapture env call w).2 := by
  intro hall
  have hbase : UserRegion execUserAddressMin := by decide
  have hmem := (hall childEnv cgiCall serverWorld).memory execUserAddressMin hbase
  have hlost : (execRunCapture childEnv cgiCall serverWorld).2.memory execUserAddressMin = 0 := by
    decide +kernel
  rw [hlost] at hmem
  exact nomatch hmem

end Monios.Analysis
