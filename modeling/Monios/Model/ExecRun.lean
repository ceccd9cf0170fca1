import Monios.Model.Installer
import Monios.Model.KernelHeap
import Monios.Model.Path
import Monios.Model.PeImage

/-!
# Running a program

`exec_run_with_flags` and `exec_run_capture` of `kernel/syscall/exec.c`: an image is read into the
kernel heap, checked, copied to its fixed place in the memory that the current page tables show,
bound to its DLLs, and entered.  Every function returns the memory and the heap it leaves, also when
it fails.

What does not decide where memory and heap are changed is a parameter (`ExecEnv`): the answers of
the file system, the header of `.rzs` packages, the resources of an image, the name of the session
user, and what happens from the start of the process to its end, be it done by the program, by its
system calls or by the process table.
-/

set_option autoImplicit false

namespace Monios.Model

open Monios.Library

/-! ## Flags -/

def execImageFlagConsole : UInt32 := 0x1
def execImageFlagGui : UInt32 := 0x2
def execImageFlagNeedsR0 : UInt32 := 0x10
def execImageFlagCertPresent : UInt32 := 0x40
def execImageFlagResourceTable : UInt32 := 0x200
def execImageFlagIconResource : UInt32 := 0x400
def execImageFlagManifestResource : UInt32 := 0x800
def execRunFlagConsoleWindow : UInt32 := 0x1
def execRunFlagElevated : UInt32 := 0x2
def execRunFlagTrustedR0 : UInt32 := 0x80000000

/-- `strcasecmp(a, b) == 0` -/
def strcasecmpBytes (a b : List UInt8) : Bool := a.map lowerByte == b.map lowerByte

def execPathHasSuffix (path suffix : List UInt8) : Bool :=
  suffix.length ≤ path.length && strcasecmpBytes (path.drop (path.length - suffix.length)) suffix

def execPathBasenameEquals (path name : List UInt8) : Bool :=
  strcasecmpBytes ((path.reverse.takeWhile (· != pathSeparator)).reverse) name

def execPathIsDriverImage (path : List UInt8) : Bool :=
  execPathHasSuffix path (ascii ".sys") || execPathHasSuffix path (ascii ".rzs")

def execPathIsGuiImage (path : List UInt8) : Bool :=
  ["explorar.exe", "monilog.exe", "player.exe", "notepad.exe", "taskmgr.exe", "cube3d.exe"].any
    fun name => execPathBasenameEquals path (ascii name)

def execPathIsElevatedTool (path : List UInt8) : Bool :=
  execPathBasenameEquals path (ascii "setup.exe") || execPathBasenameEquals path (ascii "sysinst.exe")

def execDefaultFlagsForPath (path : List UInt8) : UInt32 :=
  if execPathIsDriverImage path then execImageFlagDriver ||| execImageFlagNeedsR2 ||| execImageFlagConsole
  else
    let flags := if execPathIsGuiImage path then execImageFlagGui else execImageFlagConsole
    if execPathIsElevatedTool path then flags ||| execImageFlagNeedsR2 else flags

def execPrivilegeFlagsForPath (path : List UInt8) : UInt32 :=
  if execPathIsDriverImage path || execPathIsElevatedTool path then execImageFlagNeedsR2 else 0

/-! ## What the functions are given -/

/-- What `exec_scan_pe_resources` finds. -/
structure ResourceScan where
  icon : Bool := false
  manifest : Bool := false
  elevated : Bool := false

structure ExecFiles where
  size : List UInt8 → Int
  isDir : List UInt8 → Bool
  present : List UInt8 → Bool
  /-- the bytes that `file_read` delivers when it is asked for that many -/
  read : List UInt8 → Nat → List UInt8

/-- `exec_runtime_context_t`, but for how the process ends. -/
structure RunContext where
  launchInfo : UInt64
  imageFlags : UInt32
  privilegeLevel : UInt32
  cwd : List UInt8
  programPath : List UInt8
  kernelStack : Nat
deriving DecidableEq

/-- The memory that the current page tables show, the kernel heap, `g_exec_context`, and the
capacity of `g_exec_capture_buf` while there is one, with what is in it. -/
structure ExecWorld where
  memory : Memory
  heap : KernelHeap
  context : Option RunContext
  captureCap : Option Nat
  captured : List UInt8

structure ChildEnd where
  completed : Bool
  exitCode : Int

structure ExecEnv where
  files : ExecFiles
  /-- `exec_verify_rzs_header`: the payload and the flags -/
  verifyRzsHeader : List UInt8 → Option (List UInt8 × UInt32)
  scanPeResources : List UInt8 → Option ResourceScan
  userName : List UInt8
  /-- from `pcb_process_start` to `terminal_finish_process_console`: as a driver or not, the entry
  point and the launch information -/
  enter : Bool → Nat → UInt64 → ExecWorld → ExecWorld × ChildEnd

/-! ## Images -/

section

variable (image : List UInt8)

/-- `number_of_rva_and_sizes` -/
def peDirectoryCount : Nat := readU32 image (peOptionalOffset image + 108)

def peDirectory (index : Nat) : Nat × Nat :=
  if peDirectoryCount image ≤ index then (0, 0)
  else
    (readU32 image (peOptionalOffset image + 112 + 8 * index), readU32 image (peOptionalOffset image + 116 + 8 * index))

/-- `is_dll` -/
def peIsDll : Bool := (readU16 image (peOffset image + 22)).testBit 13

/-- `subsystem` -/
def peSubsystem : Nat := readU16 image (peOptionalOffset image + 68)

/-- `entry` -/
def peEntry : Nat := (peImageBase image + readU32 image (peOptionalOffset image + 16)) % 2 ^ 64

/-- `resource_present` -/
def peResourcePresent : Bool := peDirectory image 2 != (0, 0)

/-- `certificate_present` -/
def peCertificatePresent : Bool := peDirectory image 4 != (0, 0)

/-- The section that `exec_pe_rva_to_file_offset` takes for a range, if it does: the answer it then
gives. -/
def peSectionFileOffset (rva size i : Nat) : Option (Option Nat) :=
  let header := peSectionHeader image i
  let virtualAddress := readU32 image (header + 12)
  let rawSize := readU32 image (header + 16)
  let rawPointer := readU32 image (header + 20)
  let span := peSectionMemSize image i
  if span = 0 ∨ rva < virtualAddress ∨ rva + size > virtualAddress + span then none
  else
    let rawOffset := rva - virtualAddress
    if rawPointer = 0 ∨ rawOffset + size > rawSize ∨ rawPointer + rawOffset + size > image.length then some none
    else some (some ((rawPointer + rawOffset) % 2 ^ 32))

def execPeRvaToFileOffset (rva size : Nat) : Option Nat :=
  if size = 0 then none
  else if rva + size ≤ readU32 image (peOptionalOffset image + 60) ∧ rva + size ≤ image.length then some rva
  else ((List.range (peNumberOfSections image)).findSome? (peSectionFileOffset image rva size)).join

def execPeStringAtRva (rva : Nat) : Option (List UInt8) :=
  match execPeRvaToFileOffset image rva 1 with
  | none => none
  | some offset =>
    if (image.drop offset).contains 0 then some ((image.drop offset).takeWhile (· != 0)) else none

/-- `exec_resolve_export`, 0 when there is no such export. -/
def execResolveExport (name : List UInt8) : Nat :=
  let directory := peDirectory image 0
  if directory.1 = 0 ∨ directory.2 < 40 then 0
  else
    match execPeRvaToFileOffset image directory.1 40 with
    | none => 0
    | some o =>
      let functions := readU32 image (o + 20)
      let names := readU32 image (o + 24)
      if functions = 0 ∨ names = 0 ∨ readU32 image (o + 28) = 0 ∨ readU32 image (o + 32) = 0 ∨ readU32 image (o + 36) = 0 ∨
          functions > 0xFFFFFFFF / 4 ∨ names > 0xFFFFFFFF / 4 then 0
      else
        match execPeRvaToFileOffset image (readU32 image (o + 28)) (functions * 4),
          execPeRvaToFileOffset image (readU32 image (o + 32)) (names * 4),
          execPeRvaToFileOffset image (readU32 image (o + 36)) (names * 2) with
        | some functionsOffset, some namesOffset, some ordinalsOffset =>
          match (List.range names).find? fun i =>
            execPeStringAtRva image (readU32 image (namesOffset + 4 * i)) == some name with
          | none => 0
          | some i =>
            let ordinal := readU16 image (ordinalsOffset + 2 * i)
            let function := readU32 image (functionsOffset + 4 * ordinal)
            if ordinal ≥ functions ∨ function = 0 ∨ (directory.1 ≤ function ∧ function < directory.1 + directory.2) then 0
            else (peImageBase image + function) % 2 ^ 64
        | _, _, _ => 0

end

/-- `exec_prepare_image`.  A program of DOS, which `exec_validate_elf_header` would refuse, is
refused here. -/
def execPrepareImage (env : ExecEnv) (path image : List UInt8) : Option (List UInt8 × UInt32) :=
  let unpacked := if execPathHasSuffix path (ascii ".rzs") then env.verifyRzsHeader image else some (image, 0)
  match unpacked with
  | none => none
  | some (payload, flags) =>
    if !execImageHasPeSignature payload then none else some (payload, flags ||| execDefaultFlagsForPath path)

/-- `exec_validate_prepared_image`, with what the resources of the image are. -/
def execValidatePreparedImage (env : ExecEnv) (payload : List UInt8) : Option ResourceScan :=
  if !execValidatePeHeader payload then none
  else if peResourcePresent payload then env.scanPeResources payload
  else some {}

def execFlagsForPreparedImage (payload path : List UInt8) (scan : ResourceScan)
    (baseFlags : UInt32) : UInt32 :=
  let flags := baseFlags &&& ~~~(execImageFlagConsole ||| execImageFlagGui)
  let flags :=
    if execPathIsDriverImage path then flags ||| (execImageFlagDriver ||| execImageFlagNeedsR2 ||| execImageFlagConsole)
    else if peSubsystem payload = 2 then flags ||| execImageFlagGui
    else flags ||| execImageFlagConsole
  let flags := flags ||| execPrivilegeFlagsForPath path
  let flags := if peCertificatePresent payload then flags ||| execImageFlagCertPresent else flags
  if peResourcePresent payload then
    let flags := flags ||| execImageFlagResourceTable
    let flags := if scan.icon then flags ||| execImageFlagIconResource else flags
    let flags := if scan.manifest then flags ||| execImageFlagManifestResource else flags
    if scan.elevated then flags ||| execImageFlagNeedsR2 else flags
  else flags

/-! ## Loading -/

/-- `memset(start, 0, size)` -/
def clearMem (m : Memory) (start size : Nat) : Memory :=
  fun a => if start ≤ a.toNat ∧ a.toNat < start + size then 0 else m a

/-- One round of the loop of `exec_load_pe_sections`. -/
def execLoadPeSection (image : List UInt8) (i : Nat) (m : Memory) : Bool × Memory :=
  let header := peSectionHeader image i
  let target := (peImageBase image + readU32 image (header + 12)) % 2 ^ 64
  let rawSize := readU32 image (header + 16)
  let rawPointer := readU32 image (header + 20)
  let memSize := peSectionMemSize image i
  if memSize = 0 then (true, m)
  else if target < peImageBase image ∨ !execRangeValid target memSize then (false, m)
  else if rawSize > 0 ∧ (rawPointer = 0 ∨ rawPointer > image.length ∨ (rawPointer + rawSize) % 2 ^ 32 > image.length ∨
      (rawPointer + rawSize) % 2 ^ 32 < rawPointer) then (false, m)
  else (true, writeMem (clearMem m target memSize) (UInt64.ofNat target) (slice image rawPointer rawSize))

def execLoadSectionLoop (image : List UInt8) : List Nat → Memory → Bool × Memory
  | [], m => (true, m)
  | i :: is, m =>
    match execLoadPeSection image i m with
    | (true, m) => execLoadSectionLoop image is m
    | (false, m) => (false, m)

def execLoadPeSections (image : List UInt8) (clearRange : Bool) (m : Memory) : Bool × Memory :=
  let m := if clearRange then clearMem m 0x04000000 0x400000 else m
  execLoadSectionLoop image (List.range (peNumberOfSections image)) m

/-! ## DLLs -/

/-- `exec_loaded_dll_t`, with the place of its image in the heap. -/
structure LoadedDll where
  name : List UInt8
  image : Nat
  payload : List UInt8

structure BindState where
  memory : Memory
  heap : KernelHeap
  dlls : List LoadedDll

def execDllMax : Nat := 8

def execCanonicalDllName (name : List UInt8) : Option (List UInt8) :=
  (["monios.dll", "console.dll", "windows.dll", "osui.dll"].map ascii).find? (strcasecmpBytes name)

/-- `exec_build_dll_path`; both paths fit. -/
def execBuildDllPath (files : ExecFiles) (canonical : List UInt8) : List UInt8 :=
  let path := ascii "C:\\Monios\\System\\Lib\\" ++ canonical
  if files.present path && !files.isDir path then path else ascii "C:\\" ++ canonical

/-- What `exec_load_dll` does until the DLL is in memory; the result is its name and payload. -/
def execMapDll (env : ExecEnv) (canonical : List UInt8) (s : BindState) :
    Option LoadedDll × BindState :=
  let path := execBuildDllPath env.files canonical
  if env.files.size path ≤ 0 ∨ env.files.isDir path then (none, s)
  else
    let size := (env.files.size path).toNat
    match kmalloc s.heap size with
    | none => (none, s)
    | some (image, heap) =>
      let bytes := env.files.read path size
      if bytes.length ≠ size then (none, { s with heap := kfree heap image })
      else
        match (execPrepareImage env path bytes).bind fun r =>
          (execValidatePreparedImage env r.1).map fun _ => r.1 with
        | none => (none, { s with heap := kfree heap image })
        | some payload =>
          if !peIsDll payload then (none, { s with heap := kfree heap image })
          else
            match execLoadPeSections payload false s.memory with
            | (false, memory) => (none, { s with memory := memory, heap := kfree heap image })
            | (true, memory) =>
              let dll : LoadedDll := { name := canonical, image := image, payload := payload }
              (some dll, { memory := memory, heap := heap, dlls := s.dlls ++ [dll] })

/-- One round of the inner loop of `exec_bind_imports_for_image`: `none` when the list of thunks
ends. -/
def execBindThunk (payload : List UInt8) (dll : LoadedDll) (thunkRva firstThunk i : Nat)
    (m : Memory) :
    Option (Bool × Memory) :=
  let lookup := thunkRva + 8 * i
  if lookup > 0xFFFFFFFF then some (false, m)
  else
    match execPeRvaToFileOffset payload lookup 8 with
    | none => some (false, m)
    | some offset =>
      let value := readU64 payload offset
      if value = 0 then none
      else if value ≥ 2 ^ 63 ∨ value % 2 ^ 32 = 0 then some (false, m)
      else
        match execPeStringAtRva payload ((value % 2 ^ 32 + 2) % 2 ^ 32) with
        | none => some (false, m)
        | some name =>
          let resolved := execResolveExport dll.payload name
          let iat := (peImageBase payload + firstThunk + 8 * i) % 2 ^ 64
          if resolved = 0 ∨ !execRangeValid resolved 1 ∨ iat < peImageBase payload ∨ !execRangeValid iat 8 then some (false, m)
          else some (true, writeMem m (UInt64.ofNat iat) (bytes64 (UInt64.ofNat resolved)))

@[irreducible]
def execBindThunks (payload : List UInt8) (dll : LoadedDll) (thunkRva firstThunk : Nat) :
    List Nat → Memory → Bool × Memory
  | [], m => (true, m)
  | i :: is, m =>
    match execBindThunk payload dll thunkRva firstThunk i m with
    | none => (true, m)
    | some (false, m) => (false, m)
    | some (true, m) => execBindThunks payload dll thunkRva firstThunk is m

/-- `exec_load_dll`, given how the imports of a DLL are bound. -/
def execLoadDll (env : ExecEnv) (bind : List UInt8 → BindState → Bool × BindState)
    (name : List UInt8) (s : BindState) :
    Option LoadedDll × BindState :=
  match execCanonicalDllName name with
  | none => (none, s)
  | some canonical =>
    match s.dlls.find? fun dll => strcasecmpBytes dll.name canonical with
    | some dll => (some dll, s)
    | none =>
      if s.dlls.length ≥ execDllMax then (none, s)
      else
        match execMapDll env canonical s with
        | (none, s) => (none, s)
        | (some dll, s) =>
          match bind dll.payload s with
          | (true, s) => (some dll, s)
          | (false, s) => (none, s)

/-- The outer loop of `exec_bind_imports_for_image`, of `n` rounds from descriptor `i` on. -/
def execBindDescriptors (env : ExecEnv) (bind : List UInt8 → BindState → Bool × BindState)
    (payload : List UInt8) (rva : Nat) :
    Nat → Nat → BindState → Bool × BindState
  | 0, _, s => (false, s)
  | n + 1, i, s =>
    if rva + 20 * i > 0xFFFFFFFF then (false, s)
    else
      match execPeRvaToFileOffset payload (rva + 20 * i) 20 with
      | none => (false, s)
      | some o =>
        if (slice payload o 20).all (· == 0) then (true, s)
        else if readU32 payload (o + 12) = 0 ∨ readU32 payload (o + 16) = 0 then (false, s)
        else
          match execPeStringAtRva payload (readU32 payload (o + 12)) with
          | none => (false, s)
          | some name =>
            match execLoadDll env bind name s with
            | (none, s) => (false, s)
            | (some dll, s) =>
              let firstThunk := readU32 payload (o + 16)
              let thunkRva := if readU32 payload o ≠ 0 then readU32 payload o else firstThunk
              match execBindThunks payload dll thunkRva firstThunk (List.range 4096) s.memory with
              | (false, m) => (false, { s with memory := m })
              | (true, m) =>
                execBindDescriptors env bind payload rva n (i + 1) { s with memory := m }

/-- `exec_bind_imports_for_image`.  Every level of the recursion has loaded one DLL more, so that
there are at most `EXEC_DLL_MAX` levels. -/
def execBindImports (env : ExecEnv) : Nat → List UInt8 → BindState → Bool × BindState
  | 0, _, s => (false, s)
  | fuel + 1, payload, s =>
    let directory := peDirectory payload 1
    if directory.1 = 0 ∨ directory.2 = 0 then (true, s)
    else if directory.2 < 20 then (false, s)
    else execBindDescriptors env (execBindImports env fuel) payload directory.1 (directory.2 / 20) 0 s

def execFreeLoadedDlls (heap : KernelHeap) (dlls : List LoadedDll) : KernelHeap :=
  dlls.foldl (fun heap dll => kfree heap dll.image) heap

/-! ## Running -/

/-- The arguments of `exec_run_with_flags`; a `cwd` that is `NULL` is an empty one. -/
structure ExecCall where
  path : CString
  argv : List (List UInt8)
  cwd : CString
  env : List (List UInt8)
  runFlags : UInt32

structure OpenedImage where
  resolved : List UInt8
  image : Nat
  payload : List UInt8
  imageFlags : UInt32

/-- `exec_run_with_flags` up to the point where it starts to load: the image, or the world that a
failure leaves. -/
def execOpenImage (env : ExecEnv) (call : ExecCall) (w : ExecWorld) :
    Option OpenedImage × ExecWorld :=
  match pathResolve call.cwd call.path pathMaxLen with
  | none => (none, w)
  | some resolved =>
    if execPathHasSuffix resolved (ascii ".sys") then (none, w)
    else if env.files.size resolved ≤ 0 ∨ env.files.isDir resolved then (none, w)
    else
      let size := (env.files.size resolved).toNat
      match kmalloc w.heap size with
      | none => (none, w)
      | some (image, heap) =>
        let bytes := env.files.read resolved size
        if bytes.length ≠ size then (none, { w with heap := kfree heap image })
        else
          match (execPrepareImage env resolved bytes).bind fun r =>
            (execValidatePreparedImage env r.1).map fun scan => (r, scan) with
          | none => (none, { w with heap := kfree heap image })
          | some ((payload, flags), scan) =>
            if peIsDll payload then (none, { w with heap := kfree heap image })
            else
              let opened : OpenedImage :=
                { resolved := resolved, image := image, payload := payload
                  imageFlags := execFlagsForPreparedImage payload resolved scan flags }
              (some opened, { w with heap := heap })

theorem zero_notMem_root : (0 : UInt8) ∉ ascii "C:\\" := by decide

/-- `cwd_copy` -/
def execCwdCopy (cwd : CString) : List UInt8 :=
  (pathResolve ⟨ascii "C:\\", zero_notMem_root⟩ cwd pathMaxLen).getD (ascii "C:\\")

/-- `image_flags`, once the image is bound. -/
def execRunImageFlags (runFlags imageFlags : UInt32) : UInt32 :=
  if runFlags &&& execRunFlagConsoleWindow ≠ 0 then imageFlags ||| execImageFlagConsole else imageFlags

/-- `run_as_r0_driver` -/
def execRunAsR0Driver (runFlags imageFlags : UInt32) : Bool :=
  imageFlags &&& execImageFlagDriver != 0 && imageFlags &&& execImageFlagSigned != 0 &&
    imageFlags &&& execImageFlagNeedsR0 != 0 && runFlags &&& execRunFlagTrustedR0 != 0

/-- `privilege_level` -/
def execRunPrivilegeLevel (runFlags imageFlags : UInt32) : UInt32 :=
  if execRunAsR0Driver runFlags imageFlags then execPrivR0
  else if runFlags &&& execRunFlagElevated ≠ 0 then execPrivR2
  else execPrivR3

/-- What `exec_run_with_flags` does once the image is in memory and bound: the checks of the
privilege, the launch information, the kernel stack, and the process itself. -/
def execStart (env : ExecEnv) (call : ExecCall) (opened : OpenedImage) (dlls : List LoadedDll)
    (w : ExecWorld) :
    (Bool × Option Int) × ExecWorld :=
  let giveUp (w : ExecWorld) : (Bool × Option Int) × ExecWorld :=
    ((false, none), { w with heap := kfree (execFreeLoadedDlls w.heap dlls) opened.image })
  let imageFlags := execRunImageFlags call.runFlags opened.imageFlags
  let privilegeLevel := execRunPrivilegeLevel call.runFlags imageFlags
  if imageFlags &&& execImageFlagNeedsR0 ≠ 0 ∧ (imageFlags &&& execImageFlagDriver = 0 ∨ privilegeLevel ≠ execPrivR0) then
    giveUp w
  else if imageFlags &&& execImageFlagNeedsR2 ≠ 0 ∧ privilegeLevel > execPrivR2 then giveUp w
  else
    let cwd := execCwdCopy call.cwd
    let args : LaunchArgs :=
      { argv := call.argv, cwd := cwd, programPath := opened.resolved, env := call.env, imageFlags := imageFlags
        privilegeLevel := privilegeLevel, subsystem := UInt32.ofNat (peSubsystem opened.payload), userName := env.userName }
    let (info, memory) := execBuildUserLaunchInfo args w.memory
    let w := { w with memory := memory }
    if info = 0 then giveUp w
    else
      match kmalloc w.heap 65536 with
      | none => giveUp w
      | some (stack, heap) =>
        let context : RunContext :=
          { launchInfo := info, imageFlags := imageFlags, privilegeLevel := privilegeLevel, cwd := cwd
            programPath := opened.resolved, kernelStack := stack }
        let (w, result) :=
          env.enter (execRunAsR0Driver call.runFlags imageFlags) (peEntry opened.payload) info
            { w with heap := heap, context := some context }
        let heap := kfree (execFreeLoadedDlls (kfree w.heap stack) dlls) opened.image
        ((result.completed, some result.exitCode), { w with heap := heap, context := none })

/-- `exec_run_with_flags`: whether the process completed, and the exit code if there is one. -/
def execRunWithFlags (env : ExecEnv) (call : ExecCall) (w : ExecWorld) :
    (Bool × Option Int) × ExecWorld :=
  if w.context.isSome then ((false, none), w)
  else
    match execOpenImage env call w with
    | (none, w) => ((false, none), w)
    | (some opened, w) =>
      match execLoadPeSections opened.payload true w.memory with
      | (false, memory) =>
        ((false, none), { w with memory := memory, heap := kfree w.heap opened.image })
      | (true, memory) =>
        match execBindImports env (execDllMax + 1) opened.payload { memory := memory, heap := w.heap, dlls := [] } with
        | (false, s) =>
          ((false, none), { w with
            memory := s.memory
            heap := kfree (execFreeLoadedDlls s.heap s.dlls) opened.image })
        | (true, s) =>
          execStart env call opened s.dlls { w with memory := s.memory, heap := s.heap }

/-- The arguments of `exec_run_capture`, whose pointers are not `NULL`. -/
structure CaptureCall where
  path : CString
  outCap : Nat
  env : List (List UInt8)

/-- The call of `exec_run_with_flags` that `exec_run_capture` makes: two of the environment's
strings, if there is one. -/
def CaptureCall.toExecCall (call : CaptureCall) : ExecCall where
  path := call.path
  argv := [call.path.val]
  cwd := ⟨[], by decide⟩
  env := call.env.take 2
  runFlags := 0

def execRunCapture (env : ExecEnv) (call : CaptureCall) (w : ExecWorld) :
    (Bool × Option Int) × ExecWorld :=
  if call.outCap = 0 ∨ w.captureCap.isSome then ((false, none), w)
  else
    let inner : ExecWorld := { w with context := none, captureCap := some call.outCap, captured := [] }
    let (result, after) := execRunWithFlags env call.toExecCall inner
    ((result.1, some (result.2.getD (-1))), { after with context := w.context, captureCap := none })

end Monios.Model
