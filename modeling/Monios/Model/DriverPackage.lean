import Monios.Model.ExecRun
import Monios.Model.Hash
import Monios.Model.Rsa

/-!
# Driver packages

`exec_verify_rzs_header` of `kernel/syscall/exec.c`: the header of a `.rzs` package, the manifest
that its signature is for, and the check of both.  With it the answer of `ExecEnv` for packages is
no parameter any more.

The key is a parameter.  The one that the source stores has an array of 256 bytes of which it sets
64, so that zeros follow the modulus (`rzsStoredKey`).
-/

set_option autoImplicit false

namespace Monios.Model

open Monios.Library Monios.Model.Hash

/-- `g_rzs_public_modulus` and `g_rzs_public_exponent` -/
structure RzsKey where
  modulus : List UInt8
  exponent : List UInt8

/-- `sizeof(rzs_header_t)` -/
def rzsHeaderSize : Nat := 116

/-- `RZS_MAGIC_0` to `RZS_MAGIC_3` -/
def rzsMagic : List UInt8 := ascii "RZS1"

def rzsVersion : Nat := 1

def rzsSignatureSize : Nat := 64

/-- `rzs_header_t` -/
structure RzsHeader where
  magic : List UInt8
  version : Nat
  headerSize : Nat
  imageSize : Nat
  imageFlags : UInt32
  signatureSize : Nat
  imageSha256 : List UInt8
  signature : List UInt8

def readRzsHeader (image : List UInt8) : RzsHeader where
  magic := slice image 0 4
  version := readU16 image 4
  headerSize := readU16 image 6
  imageSize := readU32 image 8
  imageFlags := UInt32.ofNat (readU32 image 12)
  signatureSize := readU32 image 16
  imageSha256 := slice image 20 32
  signature := slice image 52 rzsSignatureSize

def execWriteU16 (value : Nat) : List UInt8 := le16 value

def execWriteU32 (value : Nat) : List UInt8 := le32 value

def execBuildRzsManifest (magic : List UInt8) (version headerSize imageSize : Nat)
    (imageFlags : UInt32) (signatureSize : Nat) (imageHash : List UInt8) : List UInt8 :=
  magic ++ execWriteU16 version ++ execWriteU16 headerSize ++ execWriteU32 imageSize ++ execWriteU32 imageFlags.toNat ++
    execWriteU32 signatureSize ++ imageHash

def execRzsSignatureZero (signature : List UInt8) : Bool := signature.all (· == 0)

def rzsFlagMask : UInt32 :=
  execImageFlagConsole ||| execImageFlagGui ||| execImageFlagDriver ||| execImageFlagNeedsR2 ||| execImageFlagNeedsR0

/-- `exec_verify_rzs_header`: the payload and the flags -/
def execVerifyRzsHeader (key : RzsKey) (image : List UInt8) : Option (List UInt8 × UInt32) :=
  let header := readRzsHeader image
  if image.length < rzsHeaderSize then none
  else if header.magic ≠ rzsMagic then none
  else if header.version ≠ rzsVersion ∨ header.headerSize < rzsHeaderSize then none
  else if header.headerSize > image.length ∨ header.imageSize = 0 ∨
      header.imageSize > image.length - header.headerSize ∨ header.signatureSize ≠ rzsSignatureSize then none
  else
    let payload := slice image header.headerSize header.imageSize
    let digest := sha256 payload
    if digest ≠ header.imageSha256 then none
    else
      let manifest := execBuildRzsManifest header.magic header.version header.headerSize header.imageSize header.imageFlags
        header.signatureSize digest
      let manifestDigest := sha256 manifest
      let flags := header.imageFlags &&& rzsFlagMask
      if !execRzsSignatureZero header.signature then
        let pubkey := rsaPubkeyInit key.modulus key.exponent
        if rsaVerifySignature pubkey header.signature manifestDigest .sha256 then some (payload, flags ||| execImageFlagSigned)
        else none
      else if header.imageFlags &&& execImageFlagNeedsR0 ≠ 0 then none
      else some (payload, flags)

/-- The environment of `exec_run_with_flags` with the check of packages. -/
def rzsEnv (key : RzsKey) (env : ExecEnv) : ExecEnv :=
  { env with verifyRzsHeader := execVerifyRzsHeader key }

end Monios.Model
