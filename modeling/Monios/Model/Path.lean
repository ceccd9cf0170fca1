import Mathlib.Algebra.Order.Ring.Int
import Mathlib.Data.List.Basic

/-!
# Paths

`lib/path.c`: `path_resolve` turns a path and the directory it is relative to into a
canonical one, a drive letter and the components behind it.

A C string is the list of its bytes up to the closing zero.  The output buffer is the list of
the bytes written so far, and `previous_lengths` the list of the lengths in it, the newest one
first.
-/

set_option autoImplicit false

namespace Monios.Model

abbrev CString := { bytes : List UInt8 // (0 : UInt8) ∉ bytes }

theorem zero_notMem_nil : (0 : UInt8) ∉ ([] : List UInt8) := List.not_mem_nil

def ascii (text : String) : List UInt8 := text.toList.map fun c => UInt8.ofNat c.toNat

def pathSeparator : UInt8 := 0x5C

def pathMaxLen : Nat := 256

/-- `PATH_COMPONENT_MAX` and `PATH_COMPONENT_NAME_MAX` -/
def pathComponentMax : Nat := 32

def pathComponentNameMax : Nat := 64

def pathUpperDrive (drive : UInt8) : UInt8 :=
  if 0x61 ≤ drive ∧ drive ≤ 0x7A then drive - 0x20 else drive

def pathHasDrivePrefix : List UInt8 → Bool
  | drive :: 0x3A :: _ => decide (0x41 ≤ pathUpperDrive drive) && decide
    (pathUpperDrive drive ≤ 0x5A)
  | _ => false

/-- The part of a round of `path_process_stream` that appends a component. -/
def pathAppend (outputSize : Nat) (component output : List UInt8) : Option (List UInt8) :=
  if 3 < output.length then
    if outputSize ≤ output.length + 1 then none
    else if outputSize ≤ output.length + 1 + component.length then none
    else some (output ++ pathSeparator :: component)
  else if outputSize ≤ output.length + component.length then none
  else some (output ++ component)

/-- `path_process_stream` with the root length 3.  A round takes at least one byte of the path. -/
def pathProcessStream (outputSize : Nat) :
    Nat → List UInt8 → List UInt8 × List Nat → Option (List UInt8 × List Nat)
  | 0, _, _ => none
  | rounds + 1, path, (output, previousLengths) =>
    let path := path.dropWhile (· == pathSeparator)
    if path.isEmpty then some (output, previousLengths)
    else
      let component := path.takeWhile (· != pathSeparator)
      let path := path.drop component.length
      if pathComponentNameMax ≤ component.length then none
      else if component = [0x2E] then pathProcessStream outputSize rounds path (output, previousLengths)
      else if component = [0x2E, 0x2E] then
        match previousLengths with
        | [] => pathProcessStream outputSize rounds path (output, [])
        | length :: previousLengths =>
          pathProcessStream outputSize rounds path (output.take length, previousLengths)
      else if pathComponentMax ≤ previousLengths.length then none
      else
        match pathAppend outputSize component output with
        | none => none
        | some output' =>
          pathProcessStream outputSize rounds path (output', output.length :: previousLengths)

def pathAfterDrivePrefix (path : List UInt8) : List UInt8 :=
  if pathHasDrivePrefix path then path.drop 2 else path

def pathDriveFor (path : List UInt8) (fallback : UInt8) : UInt8 :=
  if pathHasDrivePrefix path then pathUpperDrive (path.headD 0) else fallback

def pathIsAbsolute (path : List UInt8) : Bool :=
  path.head? == some pathSeparator || pathHasDrivePrefix path

/-- `path_resolve`; a base that is `NULL` is an empty one. -/
def pathResolve (base input : CString) (outputSize : Nat) : Option (List UInt8) :=
  let base := base.val
  let input := input.val
  if outputSize < 4 || input.contains 0x2F || base.contains 0x2F then none
  else
    let drive := if pathHasDrivePrefix input then pathDriveFor input 0x43 else pathDriveFor base 0x43
    let start : List UInt8 × List Nat := ([drive, 0x3A, pathSeparator], [])
    if pathIsAbsolute input then
      (pathProcessStream outputSize (input.length + 1) (pathAfterDrivePrefix input) start).map Prod.fst
    else if pathIsAbsolute base then
      ((pathProcessStream outputSize (base.length + 1) (pathAfterDrivePrefix base) start).bind fun state =>
        pathProcessStream outputSize (input.length + 1) input state).map Prod.fst
    else (pathProcessStream outputSize (input.length + 1) input start).map Prod.fst

end Monios.Model
