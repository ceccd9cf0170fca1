import Mathlib.Data.List.FinRange
import Monios.Model.Path

/-!
# File permissions

`kernel/syscall/fs_perm.c`: a table of modes and owners, keyed by the canonical text of a path.  A
path that the table does not have gets the default mode and belongs to root.

A path that is `NULL` is an empty one.  `fs_perm_save` writes the table to a file, which is left
out: nothing reads it before the next start.
-/

set_option autoImplicit false

namespace Monios.Model

/-- `FS_PERM_OTH_X`, `FS_PERM_OTH_W` and `FS_PERM_OTH_R` -/
def fsPermOthX : UInt32 := 1

def fsPermOthW : UInt32 := 2

def fsPermOthR : UInt32 := 4

def fsPermDefaultMode : UInt32 := 0o755

/-- `FS_PERM_TABLE_SIZE` -/
abbrev PermSlot := Fin 128

def fsPermPathSize : Nat := 128

/-- `fs_perm_entry_t` -/
structure FsPermEntry where
  used : Bool := false
  pathHash : UInt32 := 0
  path : List UInt8 := []
  mode : UInt32 := 0
  uid : UInt32 := 0
  gid : UInt32 := 0
  deriving DecidableEq

/-- `g_perm_table` and `g_perm_saving`; the defaults are those of `fs_perm_init` before the file is
loaded. -/
structure FsPerm where
  table : PermSlot → FsPermEntry := fun _ => {}
  saving : Bool := false

/-- What `fs_perm_check` reads of the process that runs. -/
structure PermUser where
  euid : UInt32
  egid : UInt32

def fsPermDjb2 (s : List UInt8) : UInt32 := s.foldl (fun h b => (h <<< 5) + h + b.toUInt32) 5381

def fsPermFind (s : FsPerm) (path : List UInt8) : Option PermSlot :=
  (List.finRange 128).find? fun i =>
    (s.table i).used && (s.table i).pathHash == fsPermDjb2 path && (s.table i).path == path

/-- The loop of `fs_perm_valid_path`: `left` bytes of room are left. -/
def fsPermScan : Nat → List UInt8 → Bool
  | 0, _ => false
  | _ + 1, [] => true
  | left + 1, b :: rest => if b = 0x7C ∨ b = 0x0A ∨ b = 0x0D then false else fsPermScan left rest

def fsPermValidPath (path : CString) : Bool :=
  if path.val = [] then false else fsPermScan fsPermPathSize path.val

/-- `PATH_ROOT` -/
def pathRootBytes : CString := ⟨ascii "C:\\", by decide⟩

def fsPermCanonical (path : CString) : Option (List UInt8) :=
  if fsPermValidPath path then pathResolve pathRootBytes path fsPermPathSize else none

/-- `fs_perm_get`: mode, user and group. -/
def fsPermGet (s : FsPerm) (path : CString) : Option (UInt32 × UInt32 × UInt32) :=
  (fsPermCanonical path).map fun canonical =>
    match fsPermFind s canonical with
    | none => (fsPermDefaultMode, 0, 0)
    | some i => ((s.table i).mode, (s.table i).uid, (s.table i).gid)

def fsPermSet (s : FsPerm) (path : CString) (mode uid gid : UInt32) : Option FsPerm :=
  (fsPermCanonical path).bind fun canonical =>
    let write (i : PermSlot) (e : FsPermEntry) : FsPerm :=
      { s with table := Function.update s.table i { e with mode := mode &&& 0o7777, uid := uid, gid := gid } }
    match fsPermFind s canonical with
    | some i => some (write i (s.table i))
    | none =>
      ((List.finRange 128).find? fun i => !(s.table i).used).map fun i =>
        write i { s.table i with used := true, pathHash := fsPermDjb2 canonical, path := canonical }

/-- `fs_perm_check`; the process that runs is `current`. -/
def fsPermCheck (s : FsPerm) (current : Option PermUser) (path : CString)
    (wantWrite wantExec : Bool) : Bool :=
  if s.saving then true
  else
    match current with
    | none => true
    | some cur =>
      if cur.euid = 0 then true
      else
        match fsPermGet s path with
        | none => false
        | some (mode, uid, gid) =>
          let shift : UInt32 := if uid = cur.euid then 6 else if gid = cur.egid then 3 else 0
          if wantWrite && mode &&& (fsPermOthW <<< shift) == 0 then false
          else if wantExec && mode &&& (fsPermOthX <<< shift) == 0 then false
          else if !wantWrite && !wantExec && mode &&& (fsPermOthR <<< shift) == 0 then false
          else true

end Monios.Model
