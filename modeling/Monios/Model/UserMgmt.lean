import Monios.Model.Process

/-!
# Users

The user database and the calls that change the user of a process, from
`kernel/syscall/user_mgmt.c`: the parser of the database, `user_authenticate` with the lock after
failures, `sys_setuid`, `sys_setgid`, `user_login`, `user_logout` and `user_su`.

The database is what `file_read` has put into the buffer, 8191 bytes at most, and nothing when the
file cannot be read; the parser sees it up to the first zero byte.  `user_mgmt_init` has read it
before the first process runs.  A string is the list of its bytes without the zero at its end.  The
home directory and the shell of an account are read over, since nothing here looks at them, and the
audit log is left out, as are calls with a null pointer.
-/

set_option autoImplicit false

namespace Monios.Model.UserMgmt

open Monios.Model

/-! ## The database -/

/-- `USER_NAME_MAX` and `USER_PASS_MAX` -/
def userNameMax : Nat := 32

def userPassMax : Nat := 64

/-- `USER_HOME_MAX` and `USER_SHELL_MAX` -/
def userHomeMax : Nat := 128

def userShellMax : Nat := 64

def userMaxCount : Nat := 32

/-- `user_entry_t` -/
structure UserEntry where
  uid : UInt32
  gid : UInt32
  username : List UInt8
  password : List UInt8
deriving DecidableEq

def isDigit (c : UInt8) : Bool := decide (0x30 ≤ c ∧ c ≤ 0x39)

/-- `user_atoi`, with the value so far -/
def userAtoi : List UInt8 → UInt32 → UInt32
  | [], v => v
  | c :: s, v => if isDigit c then userAtoi s (v * 10 + (c - 0x30).toUInt32) else v

/-- `skip_field`: what is copied after `dst`, and the text behind the field -/
def skipField (dstSize : Nat) : List UInt8 → List UInt8 → List UInt8 × List UInt8
  | [], dst => (dst, [])
  | c :: p, dst =>
    if c = 0x3A then (dst, p)
    else if c = 0x0A ∨ c = 0x0D then (dst, c :: p)
    else skipField dstSize p (if dst.length + 1 < dstSize then dst ++ [c] else dst)

def skipLine : List UInt8 → List UInt8
  | [] => []
  | c :: p => if c = 0x0A then p else skipLine p

/-- The account on the line that the text begins with, and the text behind its fields. -/
def readEntry (p : List UInt8) : UserEntry × List UInt8 :=
  let (uidStr, p) := skipField 16 p []
  let (gidStr, p) := skipField 16 p []
  let (username, p) := skipField userNameMax p []
  let (password, p) := skipField userPassMax p []
  let (_, p) := skipField userHomeMax p []
  let (_, p) := skipField userShellMax p []
  ({ uid := userAtoi uidStr 0, gid := userAtoi gidStr 0, username := username, password := password }, p)

/-- The loop of `user_load_database`.  Every round takes a byte at least. -/
def userLoadFrom : Nat → List UInt8 → List UserEntry → List UserEntry
  | 0, _, users => users
  | _ + 1, [], users => users
  | rounds + 1, p, users =>
    if users.length < userMaxCount then
      let (e, q) := readEntry p
      userLoadFrom rounds (skipLine q) (if e.username ≠ [] then users ++ [e] else users)
    else users

/-- `root`, `monios`, `guest` and the password that no one has -/
def rootName : List UInt8 := [0x72, 0x6F, 0x6F, 0x74]

def moniosName : List UInt8 := [0x6D, 0x6F, 0x6E, 0x69, 0x6F, 0x73]

def guestName : List UInt8 := [0x67, 0x75, 0x65, 0x73, 0x74]

def defaultUsers : List UserEntry :=
  [{ uid := 0, gid := 0, username := rootName, password := [0x21] },
    { uid := 1000, gid := 1000, username := moniosName, password := [0x21] },
    { uid := 1001, gid := 1001, username := guestName, password := [] }]

def userLoadDatabase (file : List UInt8) : List UserEntry :=
  if file = [] then defaultUsers
  else
    let text := file.takeWhile (· ≠ 0)
    let users := userLoadFrom text.length text []
    if users = [] then defaultUsers else users

/-! ## Authentication -/

/-- `lock_state_t` -/
structure LockState where
  failCount : UInt32 := 0
  lockUntilTick : UInt64 := 0
deriving DecidableEq

/-- The variables of the file: `g_users`, `g_lock`, and the user of the session. -/
structure UserDb where
  users : List UserEntry
  locks : List LockState
  sessionUid : UInt32 := 0
  sessionGid : UInt32 := 0

/-- What the other parts of the kernel answer: `registry_get` for `Security/FailMax` and
`Security/LockSeconds`, `timer_ticks` and `timer_hz`. -/
structure LoginEnv where
  failMax : Option (List UInt8)
  lockSeconds : Option (List UInt8)
  ticks : UInt64
  hz : UInt32

/-- A number in the registry: `lock_fail_max` and `lock_seconds` with their defaults. -/
def registryNumber (default : UInt32) (value : Option (List UInt8)) : UInt32 :=
  match value with
  | none => default
  | some v => if v = [] then default else if userAtoi v 0 = 0 then default else userAtoi v 0

def lockFailMax (env : LoginEnv) : UInt32 := registryNumber 5 env.failMax

def lockSeconds (env : LoginEnv) : UInt32 := registryNumber 900 env.lockSeconds

def lockIndexByName (name : List UInt8) (db : UserDb) : Option Nat :=
  db.users.findIdx? fun e => e.username = name

def userLookupByName (name : List UInt8) (users : List UserEntry) : Option UserEntry :=
  users.find? fun e => e.username = name

def UserDb.setLock (db : UserDb) (i : Nat) (lock : LockState) : UserDb :=
  { db with locks := db.locks.set i lock }

def userIsLocked (ticks : UInt64) (name : List UInt8) (db : UserDb) : Bool × UserDb :=
  match lockIndexByName name db with
  | none => (false, db)
  | some i =>
    let lock := db.locks.getD i {}
    if lock.lockUntilTick = 0 then (false, db)
    else if lock.lockUntilTick ≤ ticks then (false, db.setLock i {})
    else (true, db)

def clearFailures (name : List UInt8) (db : UserDb) : UserDb :=
  match lockIndexByName name db with
  | none => db
  | some i => db.setLock i {}

def countFailure (env : LoginEnv) (name : List UInt8) (db : UserDb) : UserDb :=
  match lockIndexByName name db with
  | none => db
  | some i =>
    let lock := db.locks.getD i {}
    let lock := { lock with failCount := lock.failCount + 1 }
    if lockFailMax env ≤ lock.failCount then
      let hz := if env.hz = 0 then 1 else env.hz
      db.setLock i { lock with lockUntilTick := env.ticks + hz.toUInt64 * (lockSeconds env).toUInt64 }
    else db.setLock i lock

def userAdminUnlock (name : List UInt8) (db : UserDb) : Bool × UserDb :=
  match lockIndexByName name db with
  | none => (false, db)
  | some i => (true, db.setLock i {})

def userAuthenticate (env : LoginEnv) (name password : List UInt8) (db : UserDb) : Bool × UserDb :=
  if name = [] then (false, db)
  else match userLookupByName name db.users with
    | none => (false, db)
    | some e =>
      let (locked, db) := userIsLocked env.ticks name db
      if locked then (false, db)
      else if e.password.head? = some 0x21 ∨ e.password.head? = some 0x2A then (false, db)
      else if e.password = [] then (true, clearFailures name db)
      else if e.password ≠ password then (false, countFailure env name db)
      else (true, clearFailures name db)

/-! ## The users of a process -/

def pcbSetCredentials (pid : Int) (uid gid euid egid : Nat) (k : Kernel) : Kernel :=
  match pcbFindByPid k pid with
  | none => k
  | some i => k.setPcb i { k.pcbs i with uid := uid, gid := gid, euid := euid, egid := egid }

structure System where
  kernel : Kernel
  db : UserDb

def sysSetuid (uid : UInt32) (s : System) : Int × System :=
  match pcbGetCurrent s.kernel with
  | none => (-1, s)
  | some i =>
    let cur := s.kernel.pcbs i
    if cur.euid ≠ 0 ∧ uid.toNat ≠ cur.uid ∧ uid.toNat ≠ cur.euid then (-1, s)
    else
      let cur := if cur.euid = 0 then { cur with uid := uid.toNat } else cur
      (0, { s with kernel := s.kernel.setPcb i { cur with euid := uid.toNat } })

def sysSetgid (gid : UInt32) (s : System) : Int × System :=
  match pcbGetCurrent s.kernel with
  | none => (-1, s)
  | some i =>
    let cur := s.kernel.pcbs i
    if cur.egid ≠ 0 ∧ gid.toNat ≠ cur.gid ∧ gid.toNat ≠ cur.egid then (-1, s)
    else
      let cur := if cur.egid = 0 then { cur with gid := gid.toNat } else cur
      (0, { s with kernel := s.kernel.setPcb i { cur with egid := gid.toNat } })

def userLogin (env : LoginEnv) (name password : List UInt8) (s : System) : Int × System :=
  let (authenticated, db) := userAuthenticate env name password s.db
  let s := { s with db := db }
  if !authenticated then (-1, s)
  else match userLookupByName name s.db.users with
    | none => (-1, s)
    | some e =>
      match pcbGetCurrent s.kernel with
      | none => (0, s)
      | some i =>
        (0, { s with kernel :=
          pcbSetCredentials (s.kernel.pcbs i).pid e.uid.toNat e.gid.toNat e.uid.toNat e.gid.toNat s.kernel })

def userLogout (s : System) : System :=
  match pcbGetCurrent s.kernel with
  | none => s
  | some i => { s with kernel := pcbSetCredentials (s.kernel.pcbs i).pid 0 0 0 0 s.kernel }

def userSu (env : LoginEnv) (targetName password : List UInt8) (s : System) : Int × System :=
  match userLookupByName targetName s.db.users with
  | none => (-1, s)
  | some e =>
    match pcbGetCurrent s.kernel with
    | none =>
      let (allowed, db) :=
        if s.db.sessionUid ≠ 0 then userAuthenticate env targetName password s.db else (true, s.db)
      if !allowed then (-1, { s with db := db })
      else (0, { s with db := { db with sessionUid := e.uid, sessionGid := e.gid } })
    | some i =>
      let cur := s.kernel.pcbs i
      let (allowed, db) :=
        if cur.euid ≠ 0 then userAuthenticate env targetName password s.db else (true, s.db)
      if !allowed then (-1, { s with db := db })
      else
        (0, { kernel := pcbSetCredentials cur.pid cur.uid cur.gid e.uid.toNat e.gid.toNat s.kernel, db := db })

/-! ## Calls of processes -/

/-- A call of the process that runs, or the change to another process, which then runs as
`sys_waitpid` and `exec_run_child` let it. -/
inductive UserCall
  | setuid (uid : UInt32)
  | setgid (gid : UInt32)
  | login (env : LoginEnv) (name password : List UInt8)
  | su (env : LoginEnv) (name password : List UInt8)
  | logout
  | fork (frame : SyscallFrame) (vmOk stackOk : Bool)
  | goOn (pid : Int)

def goOn (pid : Int) (k : Kernel) : Option Kernel :=
  (pcbFindByPid k pid).map fun i =>
    { k.setPcb i { k.pcbs i with state := .running } with currentPid := pid }

def userStep (s : System) : UserCall → Option System
  | .setuid uid => some (sysSetuid uid s).2
  | .setgid gid => some (sysSetgid gid s).2
  | .login env name password => some (userLogin env name password s).2
  | .su env name password => some (userSu env name password s).2
  | .logout => some (userLogout s)
  | .fork frame vmOk stackOk => some { s with kernel := (sysFork frame vmOk stackOk s.kernel).2.2 }
  | .goOn pid => (goOn pid s.kernel).map fun kernel => { s with kernel := kernel }

end Monios.Model.UserMgmt
