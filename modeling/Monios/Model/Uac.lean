import Monios.Model.Path

/-!
# The user isolation hook of the file layer

`kernel/security/uac.c`: which paths `uac_can_access` opens to the user who is logged in.  The
dialogue of `uac_request_elevation` is left out.
-/

set_option autoImplicit false

namespace Monios.Model

/-- `g_user` and `g_is_admin` -/
structure Uac where
  user : List UInt8
  isAdmin : Bool

def toLowerChar (c : UInt8) : UInt8 := if 0x41 ≤ c ∧ c ≤ 0x5A then c + 0x20 else c

/-- `USERS_PREFIX`, `:\Monios\Users\` -/
def usersPrefix : List UInt8 :=
  [0x3A, 0x5C, 0x4D, 0x6F, 0x6E, 0x69, 0x6F, 0x73, 0x5C, 0x55, 0x73, 0x65, 0x72, 0x73, 0x5C]

/-- `SYSTEM_PREFIX`, `:\Monios\System\` -/
def systemPrefix : List UInt8 :=
  [0x3A, 0x5C, 0x4D, 0x6F, 0x6E, 0x69, 0x6F, 0x73, 0x5C, 0x53, 0x79, 0x73, 0x74, 0x65, 0x6D, 0x5C]

/-- The loop of `path_after_users_prefix` and `path_has_system_prefix`: what follows the prefix. -/
def uacMatch : List UInt8 → List UInt8 → Option (List UInt8)
  | [], path => some path
  | _ :: _, [] => none
  | expect :: rest, actual :: path =>
    if expect = 0x5C then
      if actual ≠ 0x5C ∧ actual ≠ 0x2F then none else uacMatch rest path
    else if toLowerChar actual ≠ toLowerChar expect then none
    else uacMatch rest path

def pathAfterPrefix (start path : List UInt8) : Option (List UInt8) :=
  if path.getD 1 0 ≠ 0x3A ∨ path.getD 2 0 ≠ 0x5C then none
  -- the prefix is compared with the part of the path behind `X:\`
  else uacMatch start (path.drop 3)

def pathAfterUsersPrefix (path : List UInt8) : Option (List UInt8) :=
  pathAfterPrefix usersPrefix path

def pathHasSystemPrefix (path : List UInt8) : Bool := (pathAfterPrefix systemPrefix path).isSome

def extractOwner (afterUsers : List UInt8) (ownerSize : Nat) : List UInt8 :=
  ((afterUsers.takeWhile fun c => c != 0 && c != 0x5C && c != 0x2F).take (ownerSize - 1)).map toLowerChar

def uacCanAccess (g : Uac) (winpath : List UInt8) (write : Bool) : Bool :=
  if g.user.isEmpty then true
  else if g.isAdmin then true
  else if write && pathHasSystemPrefix winpath then false
  else
    match pathAfterUsersPrefix winpath with
    | some after =>
      let owner := extractOwner after 64
      !owner.isEmpty && owner == g.user.map toLowerChar
    | none => true

def uacSetUser (username : CString) (isAdmin : Bool) : Uac := ⟨username.val.take 63, isAdmin⟩

end Monios.Model
