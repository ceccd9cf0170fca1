import Monios.Model.Rsa

/-!
# Certificates and certificate chains

The part of `kernel/net/x509.c` that decides whether a presented chain is
trusted, over parsed certificates: names, validity, signatures, the trust store
and `x509_verify_chain`.  Fields of `x509_cert_t` that none of these functions
reads (version, serial number, extended key usage) are left out.
-/

set_option autoImplicit false

namespace Monios.Model

/-- `x509_name_entry_t`; the lengths are those of the lists. -/
structure NameEntry where
  oid : List UInt8
  value : List UInt8
  rdnIndex : Nat
  deriving DecidableEq, Repr

/-- `x509_cert_t` -/
structure Cert where
  raw : List UInt8
  tbs : List UInt8
  issuer : List NameEntry
  notBefore : Nat
  notAfter : Nat
  subject : List NameEntry
  signatureAlgoOid : List UInt8
  signature : List UInt8
  isCa : Bool
  pathLenConstraint : Int
  keyUsagePresent : Bool
  keyUsage : UInt16
  rsaKey : RsaPubkey
  rsaKeyReady : Bool
  deriving DecidableEq, Repr

/-- The bit `x509_parse_key_usage` sets for keyCertSign. -/
def keyUsageKeyCertSign : UInt16 := 0x0020

def x509MaxCertSize : Nat := 4096

def x509MaxChainDepth : Nat := 8

def x509MaxNameEntries : Nat := 16

def x509MaxTrustedRoots : Nat := 64

/-- `rtc_time_t` -/
structure RtcTime where
  year : Nat
  month : Nat
  day : Nat
  hour : Nat
  minute : Nat
  second : Nat
  deriving DecidableEq, Repr

/-- `x509_current_time`; 0 when the clock reading is not a date. -/
def x509CurrentTime (now : RtcTime) : Nat :=
  if now.year = 0 ∨ now.month = 0 ∨ 12 < now.month ∨ now.day = 0 ∨ 31 < now.day ∨
      23 < now.hour ∨ 59 < now.minute ∨ 59 < now.second then 0
  else
    now.year * 31536000 + now.month * 2592000 + now.day * 86400 + now.hour * 3600 + now.minute * 60 + now.second

/-- `oid_sha256_with_rsa`, `oid_sha1_with_rsa` and `oid_md5_with_rsa`. -/
def oidSha256WithRsa : List UInt8 := [0x2A, 0x86, 0x48, 0x86, 0xF7, 0x0D, 0x01, 0x01, 0x0B]

def oidSha1WithRsa : List UInt8 := [0x2A, 0x86, 0x48, 0x86, 0xF7, 0x0D, 0x01, 0x01, 0x05]

def oidMd5WithRsa : List UInt8 := [0x2A, 0x86, 0x48, 0x86, 0xF7, 0x0D, 0x01, 0x01, 0x04]

/-- `x509_verify_signature`; `true` is the return value 0. -/
def x509VerifySignature (P : Primitives) (cert issuerCert : Cert) : Bool :=
  if cert.tbs = [] ∨ cert.signature = [] ∨ !issuerCert.rsaKeyReady then false
  else if cert.signatureAlgoOid = oidSha256WithRsa then
    rsaVerifyPkcs1V15 P issuerCert.rsaKey cert.signature (P.sha256 cert.tbs) .sha256
  else if cert.signatureAlgoOid = oidSha1WithRsa then
    rsaVerifyPkcs1V15 P issuerCert.rsaKey cert.signature (P.sha1 cert.tbs) .sha1
  else if cert.signatureAlgoOid = oidMd5WithRsa then
    rsaVerifyPkcs1V15 P issuerCert.rsaKey cert.signature (P.md5 cert.tbs) .md5
  else false

/-- `x509_check_name_match`; `true` is the return value 0. -/
def x509CheckNameMatch (a b : List NameEntry) : Bool :=
  a.length ≠ 0 && b.length ≠ 0 && a.length == b.length && a.length ≤ x509MaxNameEntries &&
    (a.zip b).all fun (x, y) => x.rdnIndex == y.rdnIndex && x.oid == y.oid && x.value == y.value

/-- `x509_check_validity`; `true` is the return value 0. -/
def x509CheckValidity (cert : Cert) (currentTime : Nat) : Bool :=
  currentTime ≠ 0 && cert.notBefore ≠ 0 && cert.notBefore ≤ cert.notAfter &&
    cert.notBefore ≤ currentTime && currentTime ≤ cert.notAfter

def x509TrustContains (store : List Cert) (cert : Cert) : Bool :=
  store.length ≤ x509MaxTrustedRoots && store.any fun r => r.raw == cert.raw

/-- `x509_find_issuer`: the first root whose subject is the name asked for. -/
def x509FindIssuer (store : List Cert) (issuer : List NameEntry) : Option Cert :=
  if x509MaxTrustedRoots < store.length then none
  else store.find? fun r => x509CheckNameMatch r.subject issuer

section

variable (P : Primitives) (currentTime : Nat) (store : List Cert) (certs : List Cert)

/-- The test by which the inner loop of `x509_verify_chain` skips `certs[j]`, negated:
it has not been visited, carries the issuer's name and its key verifies `current`. -/
def isPresentedIssuer (visited : List (Fin certs.length)) (i j : Fin certs.length) : Bool :=
  j != i && !visited.contains j && x509CheckNameMatch (certs.get j).subject (certs.get i).issuer &&
    x509VerifySignature P (certs.get i) (certs.get j)

/-- `ca_below` as the inner loop computes it: the CA certificates of the list other
than the first one and `certs[j]` itself. -/
def caBelow (j : Fin certs.length) : Nat :=
  ((List.finRange certs.length).filter fun k => k.val ≠ 0 && k != j && (certs.get k).isCa).length

/-- The loop over `depth` of `x509_verify_chain`, with the iterations that are left
as the first argument. -/
def verifyChainFrom : Nat → Fin certs.length → List (Fin certs.length) → Bool
  | 0, _, _ => false
  | depth + 1, i, visited =>
    let current := certs.get i
    if visited.contains i then false
    else if x509CheckNameMatch current.subject current.issuer then
      x509TrustContains store current && x509VerifySignature P current current
    else
      match (List.finRange certs.length).find? (isPresentedIssuer P certs (i :: visited) i) with
      | some j =>
        let issuer := certs.get j
        if !issuer.isCa && !x509TrustContains store issuer then false
        else if 0 ≤ issuer.pathLenConstraint ∧ issuer.pathLenConstraint < (caBelow certs j : Int) then false
        else verifyChainFrom depth j (i :: visited)
      | none =>
        match x509FindIssuer store current.issuer with
        | some issuer =>
          x509CheckValidity issuer currentTime && x509VerifySignature P current issuer
        | none => false

end

/-- `x509_verify_chain`; `true` is the return value 0. -/
def x509VerifyChain (P : Primitives) (now : RtcTime) (certs store : List Cert) : Bool :=
  let currentTime := x509CurrentTime now
  if h : 0 < certs.length then
    decide (certs.length ≤ x509MaxChainDepth) && decide (store.length ≤ x509MaxTrustedRoots) &&
      decide (currentTime ≠ 0) && certs.all (x509CheckValidity · currentTime) &&
      verifyChainFrom P currentTime store certs certs.length ⟨0, h⟩ []
  else false

end Monios.Model
