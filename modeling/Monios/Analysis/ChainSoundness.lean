import Monios.Model.X509

/-!
# When an accepted certificate chain is a chain of trust

`x509_verify_chain` follows the presented list from its first certificate upwards and ends at a root
of the trust store. Checks are missing on the way. Nobody reads the keyCertSign bit that
`x509_parse_key_usage` records. An issuer taken from the list need not be a CA when its encoding is
in the store. An issuer found by `x509_find_issuer` is checked for validity and signature only, so
it need not be a CA and its path length constraint is ignored. And the first certificate is never
counted against a path length constraint.
-/

set_option autoImplicit false

namespace Monios.Analysis.ChainSoundness

open Monios.Model

section

variable {P : Primitives} {currentTime : Nat} {certs store : List Cert}

end

section

variable (P : Primitives) (certs store : List Cert)

/-- What `x509_verify_chain` asks before it follows the list. -/
def InDate (currentTime : Nat) (store certs : List Cert) : Prop :=
  certs.length ≤ x509MaxChainDepth ∧ store.length ≤ x509MaxTrustedRoots ∧ currentTime ≠ 0 ∧
    ∀ c ∈ certs, x509CheckValidity c currentTime = true

/-- The positions reached by following the list from its first certificate, last one first: a
certificate that is not its own issuer leads to the first other one, not yet passed, that has its
issuer's name and whose key verifies it.  The walk ends at one that is neither a CA nor in the
store, or whose path length constraint the CA certificates of the list, the first one apart, exceed.
-/
inductive Followed : List (Fin certs.length) → Prop
  | first (h : 0 < certs.length) : Followed [⟨0, h⟩]
  | next {i j : Fin certs.length} {passed : List (Fin certs.length)} (h : Followed (i :: passed))
      (hself : x509CheckNameMatch (certs.get i).subject (certs.get i).issuer = false)
      (hj : (List.finRange certs.length).find? (isPresentedIssuer P certs (i :: passed) i) = some j)
      (hca : (!(certs.get j).isCa && !x509TrustContains store (certs.get j)) = false)
      (hlen : ¬ (0 ≤ (certs.get j).pathLenConstraint ∧ (certs.get j).pathLenConstraint < (caBelow certs j : Int))) :
      Followed (j :: i :: passed)

variable (currentTime : Nat)

end

section

variable {P : Primitives} {currentTime : Nat} {certs store : List Cert}

theorem Followed.nodup {is : List (Fin certs.length)} (h : Followed P certs store is) :
    is.Nodup := by
  induction h with
  | first h => exact List.nodup_singleton _
  | next h hself hj hca hlen ih =>
    have hsel := List.find?_some hj
    unfold isPresentedIssuer at hsel
    simp only [Bool.and_eq_true, Bool.not_eq_true', List.contains_eq_mem,
      decide_eq_false_iff_not] at hsel
    exact List.nodup_cons.mpr ⟨hsel.1.1.2, ih⟩

end

section

variable {P : Primitives} {currentTime : Nat} {certs store : List Cert}

end

def sampleKey : RsaPubkey := ⟨2 ^ 512 - 1, 1, 512⟩

def sampleTbs : List UInt8 := [0x30, 0x00]

def sampleDigest : List UInt8 :=
  [0xe4, 0xf6, 0x0d, 0x0a, 0xa6, 0xd7, 0xf3, 0xd3, 0xb6, 0xa6, 0x49, 0x4b, 0x1c, 0x86, 0x1b, 0x99,
    0xf6, 0x49, 0xc6, 0xf9, 0xec, 0x51, 0xab, 0xaf, 0x20, 0x1b, 0x20, 0xf2, 0x97, 0x32, 0x7c, 0x95]

def samplePrimitives : Primitives where
  md5 := fun _ => []
  sha1 := fun _ => []
  sha256 := fun _ => sampleDigest
  rsaMontgomeryModpow := fun _ input => some input

def sampleCert (raw : UInt8) (issuer subject : UInt8) (isCa : Bool) : Cert where
  raw := [raw]
  tbs := sampleTbs
  issuer := [⟨[0x55, 0x04, 0x03], [issuer], 0⟩]
  notBefore := 1
  notAfter := 10 ^ 12
  subject := [⟨[0x55, 0x04, 0x03], [subject], 0⟩]
  signatureAlgoOid := oidSha256WithRsa
  signature := [0x00, 0x01] ++ List.replicate 10 0xFF ++ [0x00] ++ RsaHash.sha256.digestInfo ++ sampleDigest
  isCa := isCa
  pathLenConstraint := -1
  keyUsagePresent := false
  keyUsage := 0
  rsaKey := sampleKey
  rsaKeyReady := true

def sampleTime : RtcTime := ⟨2026, 1, 1, 0, 0, 0⟩

end Monios.Analysis.ChainSoundness
