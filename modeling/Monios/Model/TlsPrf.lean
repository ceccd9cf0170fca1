import Monios.Model.Hash

/-!
# The expansion of TLS secrets

`tls_p_hash` and `tls_prf` from `kernel/net/tls.c`.  What the array `a` holds before the seed is
copied into it is a parameter.
-/

set_option autoImplicit false

namespace Monios.Model.TlsPrf

open Monios.Model.Hash

/-- `sizeof(combined_seed)` and `sizeof(tmp)` -/
def combinedSeedSize : Nat := 256

def tmpSize : Nat := 32 + 64

/-- The rounds of `tls_p_hash` for the `left` bytes of output: the bytes, and what `tmp` holds in
each round. -/
def tlsPHashRounds (hmac : List UInt8 → List UInt8 → List UInt8) (hashLen : Nat)
    (secret seed : List UInt8) :
    Nat → List UInt8 → Nat → List UInt8 × List (List UInt8)
  | 0, _, _ => ([], [])
  | rounds + 1, a, left =>
    if left = 0 then ([], [])
    else
      let a := hmac secret a
      let tmp := a ++ seed
      let copyLen := min hashLen left
      let (output, tmps) := tlsPHashRounds hmac hashLen secret seed rounds a (left - copyLen)
      ((hmac secret tmp).take copyLen ++ output, tmp :: tmps)

/-- What a call computes: `A(0)` as it goes into the first HMAC, the output, and the contents of
`tmp`. -/
structure PHash where
  first : List UInt8
  output : List UInt8
  tmps : List (List UInt8)

/-- `tls_p_hash`; every round makes a byte of output at least. -/
def tlsPHash (stack secret seed : List UInt8) (outputLen : Nat) (useSha256 : Bool) : PHash :=
  let hmac := if useSha256 then hmacSha256 else hmacSha1
  let aLen := if useSha256 then 32 else 20
  -- `memcpy(a, seed, seed_len > a_len ? a_len : seed_len)`
  let a := seed.take aLen ++ (stack.take aLen).drop seed.length
  let (output, tmps) := tlsPHashRounds hmac aLen secret seed outputLen a outputLen
  ⟨a, output, tmps⟩

/-- `tls_prf`, with no result where it returns -1. -/
def tlsPrf (stack secret label seed : List UInt8) (outputLen : Nat) (useSha256 : Bool) :
    Option PHash :=
  if combinedSeedSize < label.length + seed.length then none
  else some (tlsPHash stack secret (label ++ seed) outputLen useSha256)

end Monios.Model.TlsPrf
