import Monios.Model.EntryStubs

/-!
# Launch information and the privileges of the installer

`exec_build_user_launch_info` of `kernel/syscall/exec.c` writes what a program is told about its
start into the memory of that program.  `installer_privileged` of `kernel/platform/installer.c`
guards the raw disk writes and reads the answer back from there.

Memory is what the kernel sees through the page tables of the running process.  The answers of
`file_exists`, `iso9660_init` and `iso9660_exists` for the files of the installation media are part
of the state.
-/

set_option autoImplicit false

namespace Monios.Model

/-- `EXEC_USER_ADDRESS_MIN`, `EXEC_USER_ADDRESS_MAX`, `EXEC_USER_DATA_BASE` and
`EXEC_USER_DATA_LIMIT` -/
def execUserAddressMin : UInt64 := 0x04000000

def execUserAddressMax : UInt64 := 0x04400000

def execUserDataBase : UInt64 := 0x043C0000

def execUserDataLimit : UInt64 := 0x043F0000

/-- The addresses of user memory, which `EXEC_LOAD_BASE` and `EXEC_LOAD_LIMIT` bound as well. -/
def UserRegion (a : UInt64) : Prop := execUserAddressMin ≤ a ∧ a < execUserAddressMax

instance (a : UInt64) : Decidable (UserRegion a) := inferInstanceAs (Decidable (_ ∧ _))

abbrev Memory := UInt64 → UInt8

/-! ## Reads and writes -/

def readMem32 (m : Memory) (a : UInt64) : UInt32 :=
  (m a).toUInt32 ||| (m (a + 1)).toUInt32 <<< 8 ||| (m (a + 2)).toUInt32 <<< 16 ||| (m (a + 3)).toUInt32 <<< 24

def readMem64 (m : Memory) (a : UInt64) : UInt64 :=
  (readMem32 m a).toUInt64 ||| (readMem32 m (a + 4)).toUInt64 <<< 32

def writeMem (m : Memory) (a : UInt64) : List UInt8 → Memory
  | [] => m
  | b :: bs => writeMem (Function.update m a b) (a + 1) bs

def bytes32 (v : UInt32) : List UInt8 :=
  [v.toUInt8, (v >>> 8).toUInt8, (v >>> 16).toUInt8, (v >>> 24).toUInt8]

def bytes64 (v : UInt64) : List UInt8 := bytes32 v.toUInt32 ++ bytes32 (v >>> 32).toUInt32

/-- The case folding of `strcasecmp` -/
def lowerByte (c : UInt8) : UInt8 := if 0x41 ≤ c ∧ c ≤ 0x5A then c - 0x41 + 0x61 else c

/-- `strcasecmp(a, text) == 0` for a text without zeros. -/
def strcasecmpAt (m : Memory) (a : UInt64) : List UInt8 → Bool
  | [] => m a == 0
  | c :: text => m a != 0 && lowerByte (m a) == lowerByte c && strcasecmpAt m (a + 1) text

/-! ## Building the launch information -/

/-- The cursor of `exec_build_user_launch_info` and the memory. -/
structure LaunchBuild where
  cursor : UInt64
  memory : Memory

/-- `exec_user_alloc`; `NULL` is 0. -/
def execUserAlloc (size align limit : UInt64) : StateM LaunchBuild UInt64 := fun s =>
  if align = 0 ∨ align &&& (align - 1) ≠ 0 ∨ s.cursor > 0xFFFFFFFFFFFFFFFF - (align - 1) then (0, s)
  else
    let aligned := (s.cursor + (align - 1)) &&& ~~~(align - 1)
    if aligned > limit ∨ size > limit - aligned then (0, s)
    else (aligned, { s with cursor := aligned + size })

/-- A store of `exec_build_user_launch_info`. -/
def launchStore (a : UInt64) (bytes : List UInt8) : StateM LaunchBuild Unit :=
  modify fun s => { s with memory := writeMem s.memory a bytes }

def execUserCopyString (limit : UInt64) (text : List UInt8) : StateM LaunchBuild UInt64 := do
  -- the length is a 32-bit value
  let size : UInt32 := UInt32.ofNat text.length + 1
  let target ← execUserAlloc size.toUInt64 1 limit
  if target = 0 then pure 0
  else
    launchStore target ((text ++ [0]).take size.toNat)
    pure target

/-- Copy strings and store their addresses in a table, up to the first one that does not fit. -/
def execUserCopyStrings (limit table : UInt64) : List (List UInt8) → StateM LaunchBuild Bool
  | [] => pure true
  | text :: texts => do
      let target ← execUserCopyString limit text
      launchStore table (bytes64 target)
      if target = 0 then pure false else execUserCopyStrings limit (table + 8) texts

/-- The arguments of `exec_build_user_launch_info`, with the name of the session user. -/
structure LaunchArgs where
  argv : List (List UInt8)
  cwd : List UInt8
  programPath : List UInt8
  env : List (List UInt8)
  imageFlags : UInt32
  privilegeLevel : UInt32
  subsystem : UInt32
  userName : List UInt8

/-- `sizeof(exec_launch_info_t)` -/
def launchInfoSize : UInt64 := 96

/-- The part of `exec_build_user_launch_info` for the environment. -/
def execFillUserEnv (args : LaunchArgs) (info : UInt64) : StateM LaunchBuild UInt64 := do
  if args.env.isEmpty then pure info
  else
    let count : UInt64 := UInt64.ofNat args.env.length
    let userEnv ← execUserAlloc (8 * count) 8 execUserDataLimit
    if userEnv = 0 then pure 0
    else
      let copied ← execUserCopyStrings execUserDataLimit userEnv args.env
      if !copied then pure 0
      else
        launchStore (info + 32) (bytes64 userEnv)
        launchStore (info + 40) (bytes32 count.toUInt32)
        pure info

/-- The part of `exec_build_user_launch_info` behind the table for the arguments. -/
def execFillUserLaunchInfo (args : LaunchArgs) (info userArgv : UInt64) :
    StateM LaunchBuild UInt64 := do
  -- `EXEC_ABI_VERSION`
  launchStore info (bytes32 5)
  launchStore (info + 4) (bytes32 args.imageFlags)
  launchStore (info + 8) (bytes32 args.privilegeLevel)
  launchStore (info + 12) (bytes32 args.subsystem)
  launchStore (info + 16) (bytes32 (UInt32.ofNat args.argv.length))
  launchStore (info + 24) (bytes64 userArgv)
  launchStore (info + 32) (bytes64 0)
  launchStore (info + 40) (bytes32 0)
  let cwd ← execUserCopyString execUserDataLimit args.cwd
  launchStore (info + 48) (bytes64 cwd)
  let programPath ← execUserCopyString execUserDataLimit args.programPath
  launchStore (info + 56) (bytes64 programPath)
  let userName ← execUserCopyString execUserDataLimit args.userName
  launchStore (info + 64) (bytes64 userName)
  -- `EXEC_HANDLE_STDIN`, `EXEC_HANDLE_STDOUT` and `EXEC_HANDLE_STDERR`
  launchStore (info + 72) (bytes64 0)
  launchStore (info + 80) (bytes64 1)
  launchStore (info + 88) (bytes64 2)
  if cwd = 0 ∨ programPath = 0 ∨ userName = 0 then pure 0
  else
    let copied ← execUserCopyStrings execUserDataLimit userArgv args.argv
    if !copied then pure 0 else execFillUserEnv args info

def execBuildUserLaunchInfo (args : LaunchArgs) (m : Memory) : UInt64 × Memory :=
  let build : StateM LaunchBuild UInt64 := do
    let info ← execUserAlloc launchInfoSize 16 execUserDataLimit
    if 128 < args.argv.length ∨ 128 < args.env.length ∨ info = 0 then pure 0
    else if args.argv.isEmpty then execFillUserLaunchInfo args info 0
    else
      let userArgv ← execUserAlloc (8 * UInt64.ofNat args.argv.length) 8 execUserDataLimit
      if userArgv = 0 then pure 0 else execFillUserLaunchInfo args info userArgv
  let r := build ⟨execUserDataBase, m⟩
  (r.1, r.2.memory)

/-! ## The check of the installer -/

/-- What the file systems answer about `INSTALL.FLG`, `SYSTEM_UEFI.ZIP` and `SYSTEM_MBR.ZIP`. -/
structure BootMedia where
  fileFlag : Bool
  fileUefi : Bool
  fileMbr : Bool
  isoInit : Bool
  isoFlag : Bool
  isoUefi : Bool
  isoMbr : Bool

/-- `installer_boot_media_present`; the three constant paths pass `installer_backend_path`. -/
def installerBootMediaPresent (b : BootMedia) : Bool :=
  if b.fileFlag && (b.fileUefi || b.fileMbr) then true
  else if b.isoInit then b.isoFlag && (b.isoUefi || b.isoMbr)
  else false

/-- The state the privilege decisions are taken in.  The launch information of a context comes from
`exec_build_user_launch_info`, or is the `NULL` that `exec_run_child` leaves in the context of a
forked child. -/
structure LaunchState where
  kernel : Kernel
  launchInfo : UInt64
  memory : Memory
  media : BootMedia
  launchInfo_eq : launchInfo = 0 ∨ launchInfo = execUserDataBase

def execCurrentLaunchInfo (s : LaunchState) : UInt64 :=
  if execActive s.kernel then s.launchInfo else 0

/-- `C:\SETUP.EXE` -/
def setupPath : List UInt8 := [0x43, 0x3A, 0x5C, 0x53, 0x45, 0x54, 0x55, 0x50, 0x2E, 0x45, 0x58, 0x45]

def installerPrivileged (s : LaunchState) : Bool :=
  let info := execCurrentLaunchInfo s
  info != 0 && readMem32 s.memory (info + 8) ≤ execPrivR2 && readMem64 s.memory (info + 56) != 0 &&
    strcasecmpAt s.memory (readMem64 s.memory (info + 56)) setupPath &&
    installerBootMediaPresent s.media

inductive PrivilegeDecision
  /-- `installer_privileged`, in front of the raw disk writes -/
  | installer
  | level
  | gated (call : GatedCall)

def privilegeAnswer (s : LaunchState) : PrivilegeDecision → Bool ⊕ UInt32
  | .installer => .inl (installerPrivileged s)
  | .level => .inr (execCurrentPrivilegeLevel s.kernel)
  | .gated call => .inl (gateAllows s.kernel call)

end Monios.Model
