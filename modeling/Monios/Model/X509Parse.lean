import Monios.Library.Logged
import Monios.Library.Bytes
import Monios.Model.X509

/-!
# The certificate parser

The part of `kernel/net/x509.c` that reads a DER certificate, as computations that log the bytes of
the input they read and the parts of the fields they write.  A pointer into the input is an offset,
and every function gets it with the number of bytes that it may use; the conditions of the source
are checked one after the other, as `||` does.

A loop has a number of rounds; where the source would go on, `Access.spin` is logged.  The failure
of a computation is the return value `-1` or `false`.
-/

set_option autoImplicit false

namespace Monios.Model.X509Parse

open Monios.Library Monios.Library.Logged

inductive Access
  | read (i : Nat)
  /-- `n` bytes of the input are read -/
  | span (i n : Nat)
  /-- `n` bytes of a field of `size` bytes are read or written, from its byte `i` on -/
  | field (size i n : Nat)
  /-- an element of `entries` of a name is used -/
  | entry (k : Nat)
  | spin
  deriving DecidableEq

abbrev Parser (α : Type) : Type := Logged Access α

/-! ## The tags -/

/-- `ASN1_TAG_BOOLEAN` and the other tags -/
def asn1TagBoolean : UInt8 := 0x01

def asn1TagInteger : UInt8 := 0x02

def asn1TagBitString : UInt8 := 0x03

def asn1TagOctetString : UInt8 := 0x04

def asn1TagOid : UInt8 := 0x06

def asn1TagUtf8String : UInt8 := 0x0C

def asn1TagPrintableString : UInt8 := 0x13

def asn1TagT61String : UInt8 := 0x14

def asn1TagIa5String : UInt8 := 0x16

def asn1TagBmpString : UInt8 := 0x1E

def asn1TagUtctime : UInt8 := 0x17

def asn1TagGeneralizedTime : UInt8 := 0x18

def asn1TagSequence : UInt8 := 0x30

def asn1TagSet : UInt8 := 0x31

def asn1TagConstructed : UInt8 := 0x20

def asn1TagContextSpecific : UInt8 := 0x80

/-- `oid_rsa_encryption` and the other object identifiers -/
def oidRsaEncryption : List UInt8 := [0x2A, 0x86, 0x48, 0x86, 0xF7, 0x0D, 0x01, 0x01, 0x01]

def oidCommonName : List UInt8 := [0x55, 0x04, 0x03]

def oidBasicConstraints : List UInt8 := [0x55, 0x1D, 0x13]

def oidKeyUsage : List UInt8 := [0x55, 0x1D, 0x0F]

def oidExtendedKeyUsage : List UInt8 := [0x55, 0x1D, 0x25]

def oidCodeSigning : List UInt8 := [0x2B, 0x06, 0x01, 0x05, 0x05, 0x07, 0x03, 0x03]

section

variable (d : List UInt8)

/-- `data[i]` -/
def byte (i : Nat) : Parser UInt8 := do
  emit (.read i)
  pure (d.getD i 0)

/-- Bytes of the input, for `memcpy` and `memcmp`. -/
def bytes (i n : Nat) : Parser (List UInt8) := do
  emit (.span i n)
  pure (slice d i n)

/-- `memcpy` from the input to the front of a field. -/
def copy (size i n : Nat) : Parser (List UInt8) := do
  let content ← bytes d i n
  emit (.field size 0 n)
  pure content

def spin {α : Type} : Parser α := do
  emit .spin
  fail

/-! ## ASN.1 parsing -/

def bigEndian : Nat → Nat → Nat → Parser Nat
  | 0, _, value => pure value
  | n + 1, i, value => do
      let b ← byte d i
      bigEndian n (i + 1) (value * 256 % 2 ^ 32 + b.toNat)

/-- `asn1_read_length`: the length of the content and that of the header -/
def asn1ReadLength (p len : Nat) : Parser (Nat × Nat) := do
  require (2 ≤ len)
  let b ← byte d (p + 1)
  if b.toNat < 0x80 then pure (b.toNat, 2)
  else do
    let numBytes := b.toNat % 0x80
    require (numBytes ≠ 0 ∧ numBytes ≤ 4)
    require (numBytes ≤ len - 2)
    let first ← byte d (p + 2)
    require (first ≠ 0 ∧ (numBytes = 1 → 0x80 ≤ first))
    let value ← bigEndian d numBytes (p + 2) 0
    pure (value, 2 + numBytes)

def asn1Header (p len : Nat) : Parser (Nat × Nat) := do
  let (contentLen, headerLen) ← asn1ReadLength d p len
  require (headerLen ≤ len ∧ contentLen ≤ len - headerLen)
  pure (contentLen, headerLen)

def asn1TlvTotalLength (p len : Nat) : Parser Nat := do
  let (contentLen, headerLen) ← asn1Header d p len
  pure (headerLen + contentLen)

/-- `asn1_skip_tlv`: the new offset -/
def asn1SkipTlv (p len offset : Nat) : Parser Nat := do
  require (offset ≤ len)
  let total ← asn1TlvTotalLength d (p + offset) (len - offset)
  pure (offset + total)

/-- `asn1_parse_container`: where the content is, and its length -/
def asn1ParseContainer (tag : UInt8) (p len : Nat) : Parser (Nat × Nat) := do
  require (2 ≤ len)
  let t ← byte d p
  require (t = tag)
  let (contentLen, headerLen) ← asn1Header d p len
  pure (p + headerLen, contentLen)

def asn1ParseSequence (p len : Nat) : Parser (Nat × Nat) :=
  asn1ParseContainer d asn1TagSequence p len

def asn1ParseInteger (p len : Nat) : Parser (Nat × Nat) := asn1ParseContainer d asn1TagInteger p len

def asn1ParseOid (p len : Nat) : Parser (Nat × Nat) := asn1ParseContainer d asn1TagOid p len

/-- `asn1_parse_bit_string`: the bytes behind the number of unused bits -/
def asn1ParseBitString (p len : Nat) : Parser (Nat × Nat) := do
  require (3 ≤ len)
  let (content, contentLen) ← asn1ParseContainer d asn1TagBitString p len
  require (1 ≤ contentLen)
  pure (content + 1, contentLen - 1)

/-- The loop of `asn1_parse_string` over the characters of a `BMPString`. -/
def asn1BmpChars (maxLen : Nat) : Nat → Nat → List UInt8 → Parser (List UInt8)
  | 0, _, out => pure out
  | n + 1, i, out => do
      let high ← byte d i
      require (high = 0)
      let low ← byte d (i + 1)
      emit (.field maxLen out.length 1)
      asn1BmpChars maxLen n (i + 2) (out ++ [low])

/-- The tags that `asn1_parse_string` takes. -/
def isStringTag (tag : UInt8) : Bool :=
  tag == asn1TagUtf8String || tag == asn1TagPrintableString || tag == asn1TagIa5String || tag == asn1TagT61String ||
    tag == asn1TagBmpString

/-- `asn1_parse_string`: the characters copied, before the zero that ends them -/
def asn1ParseString (p len maxLen : Nat) : Parser (List UInt8) := do
  require (maxLen ≠ 0 ∧ 2 ≤ len)
  let tag ← byte d p
  require (isStringTag tag)
  let (contentLen, headerLen) ← asn1Header d p len
  if tag = asn1TagBmpString then do
    require (contentLen % 2 = 0)
    let copyLen := min (contentLen / 2) (maxLen - 1)
    let out ← asn1BmpChars d maxLen copyLen (p + headerLen) []
    emit (.field maxLen copyLen 1)
    pure out
  else do
    let copyLen := min contentLen (maxLen - 1)
    let out ← copy d maxLen (p + headerLen) copyLen
    emit (.field maxLen copyLen 1)
    pure out

/-! ## Names -/

/-- One attribute in `x509_parse_name`, of the sequence with the given content. -/
def x509ParseAttribute (rdnIndex count seqP seqLen : Nat) : Parser NameEntry := do
  let (oid, oidLen) ← asn1ParseOid d seqP seqLen
  require (oidLen ≤ 32)
  let (oidContentLen, oidHeader) ← asn1Header d seqP seqLen
  let valueOffset := oidHeader + oidContentLen
  require (valueOffset < seqLen)
  emit (.entry count)
  let value ← asn1ParseString d (seqP + valueOffset) (seqLen - valueOffset) 128
  let oidBytes ← copy d 32 oid oidLen
  -- the length of the value is that of the C string in the field
  let value := value.takeWhile (· != 0)
  emit (.field 128 0 (value.length + 1))
  pure ⟨oidBytes, value, rdnIndex⟩

/-- The inner loop of `x509_parse_name`, over the attributes of a set. -/
def x509ParseSet (setP setLen rdnIndex : Nat) : Nat → Nat → List NameEntry → Parser (List NameEntry)
  | 0, setOffset, name => if setOffset < setLen then spin else do
      require (setOffset = setLen)
      pure name
  | rounds + 1, setOffset, name =>
    if setOffset < setLen then do
      require (name.length < x509MaxNameEntries)
      let (seqP, seqLen) ← asn1ParseSequence d (setP + setOffset) (setLen - setOffset)
      let seqTotal ← asn1TlvTotalLength d (setP + setOffset) (setLen - setOffset)
      let entry ← x509ParseAttribute d rdnIndex name.length seqP seqLen
      x509ParseSet setP setLen rdnIndex rounds (setOffset + seqTotal) (name ++ [entry])
    else do
      require (setOffset = setLen)
      pure name

/-- The outer loop of `x509_parse_name`. -/
def x509ParseRdns (content contentLen : Nat) :
    Nat → Nat → Nat → List NameEntry → Parser (List NameEntry)
  | 0, offset, _, name => if offset < contentLen then spin else do
      require (offset = contentLen ∧ 0 < name.length)
      pure name
  | rounds + 1, offset, rdnIndex, name =>
    if offset < contentLen then do
      let tag ← byte d (content + offset)
      require (tag = asn1TagSet)
      let (setP, setLen) ← asn1ParseContainer d asn1TagSet (content + offset) (contentLen - offset)
      require (setLen ≠ 0)
      let name ← x509ParseSet d setP setLen rdnIndex setLen 0 name
      let setTotal ← asn1TlvTotalLength d (content + offset) (contentLen - offset)
      require (setTotal ≠ 0 ∧ setTotal ≤ contentLen - offset)
      x509ParseRdns content contentLen rounds (offset + setTotal) (rdnIndex + 1) name
    else do
      require (offset = contentLen ∧ 0 < name.length)
      pure name

def x509ParseName (p len : Nat) : Parser (List NameEntry) := do
  let (content, contentLen) ← asn1ParseSequence d p len
  x509ParseRdns d content contentLen contentLen 0 0 []

/-- `x509_get_common_name`: the string in the buffer; `none` is the return value `-1`. -/
def x509GetCommonName (name : List NameEntry) (maxLen : Nat) : Option (List UInt8) :=
  if maxLen = 0 ∨ x509MaxNameEntries < name.length then none
  else (name.find? fun entry => entry.oid == oidCommonName).map fun entry => entry.value.take (maxLen - 1)

/-! ## Times -/

/-- The first loop of `x509_parse_time`: whether all bytes are digits, but for a `Z` at the end. -/
def x509TimeDigits (p len : Nat) : Nat → Nat → Parser Bool
  | 0, _ => pure true
  | n + 1, i => do
      let b ← byte d (p + i)
      if i = len - 1 ∧ b = 0x5A then x509TimeDigits p len n (i + 1)
      else if b < 0x30 ∨ 0x39 < b then pure false
      else x509TimeDigits p len n (i + 1)

/-- Two digits; the `Z` counts like a digit here. -/
def x509TwoDigits (i : Nat) : Parser Nat := do
  let tens ← byte d i
  let ones ← byte d (i + 1)
  pure ((tens.toNat - 0x30) * 10 + (ones.toNat - 0x30))

/-- `x509_parse_time`; 0 when it is not a time. -/
def x509ParseTime (p len : Nat) (utc : Bool) : Parser Nat :=
  if len < (if utc then 12 else 14) then pure 0
  else do
    let digits ← x509TimeDigits d p len len 0
    if !digits then pure 0
    else do
      let (year, offset) ← (do
        let high ← x509TwoDigits d p
        if utc then pure (if 50 ≤ high then high + 1900 else high + 2000, 2)
        else do
          let low ← x509TwoDigits d (p + 2)
          pure (high * 100 + low, 4))
      let month ← x509TwoDigits d (p + offset)
      let day ← x509TwoDigits d (p + offset + 2)
      let hour ← x509TwoDigits d (p + offset + 4)
      let min ← x509TwoDigits d (p + offset + 6)
      let sec ← x509TwoDigits d (p + offset + 8)
      pure (year * 31536000 + month * 2592000 + day * 86400 + hour * 3600 + min * 60 + sec)

def x509ValidityTime (content contentLen offset : Nat) : Parser (Nat × Nat) := do
  require (offset < contentLen)
  let tag ← byte d (content + offset)
  require (tag = asn1TagUtctime ∨ tag = asn1TagGeneralizedTime)
  let (valueLen, headerLen) ← asn1Header d (content + offset) (contentLen - offset)
  let time ← x509ParseTime d (content + offset + headerLen) valueLen (tag == asn1TagUtctime)
  require (time ≠ 0)
  pure (time, offset + headerLen + valueLen)

/-- `x509_parse_validity`: `not_before` and `not_after` -/
def x509ParseValidity (p len : Nat) : Parser (Nat × Nat) := do
  let (content, contentLen) ← asn1ParseSequence d p len
  let (notBefore, offset) ← x509ValidityTime d content contentLen 0
  let (notAfter, _) ← x509ValidityTime d content contentLen offset
  pure (notBefore, notAfter)

/-! ## Certificates -/

/-- `x509_cert_t`, with the fields that only the parser knows -/
structure X509Cert extends Cert where
  version : Int
  serialNumber : List UInt8
  signatureOid : List UInt8
  pubkeyOid : List UInt8
  pubkeyModulus : List UInt8
  pubkeyExponent : List UInt8
  ekuPresent : Bool
  hasCodeSigningEku : Bool

def X509Cert.cleared : X509Cert where
  raw := []
  tbs := []
  issuer := []
  notBefore := 0
  notAfter := 0
  subject := []
  signatureAlgoOid := []
  signature := []
  isCa := false
  pathLenConstraint := 0
  keyUsagePresent := false
  keyUsage := 0
  rsaKey := ⟨0, 0, 0⟩
  rsaKeyReady := false
  version := 0
  serialNumber := []
  signatureOid := []
  pubkeyOid := []
  pubkeyModulus := []
  pubkeyExponent := []
  ekuPresent := false
  hasCodeSigningEku := false

def x509SkipZeros : Nat → Nat → Parser (Nat × Nat)
  | 0, i => pure (i, 0)
  | n + 1, i =>
    if n = 0 then pure (i, n + 1)
    else do
      let b ← byte d i
      if b = 0 then x509SkipZeros n (i + 1) else pure (i, n + 1)

/-- `bignum_from_bytes`, from a field of `size` bytes: the value, with the words that are written.
-/
def bignumFromBytes (size : Nat) (content : List UInt8) : Parser Nat := do
  emit (.field size 0 content.length)
  let digits := content.dropWhile (· == 0)
  emit (.field 512 0 (4 * min ((digits.length + 3) / 4) 128))
  pure (digits.foldl (fun value b => value * 256 + b.toNat) 0)

/-- `rsa_pubkey_init`, of the two fields of the certificate. -/
def rsaPubkeyInit (modulus exponent : List UInt8) : Parser RsaPubkey := do
  let n ← bignumFromBytes rsaMaxModulusBytes modulus
  let e ← bignumFromBytes 16 exponent
  pure ⟨n, e, modulus.length * 8⟩

/-- `x509_oid_equal`, with one of the object identifiers above; `x509_parse_spki` has the same test
in its own words. -/
def x509OidEqual (left leftLen : Nat) (right : List UInt8) : Parser Bool :=
  if leftLen = right.length then do
    let content ← bytes d left leftLen
    pure (content == right)
  else pure false

def x509ParseSpki (cert : X509Cert) (p len : Nat) : Parser X509Cert := do
  let (content, contentLen) ← asn1ParseSequence d p len
  let (algoContent, algoLen) ← asn1ParseSequence d content contentLen
  let (oid, oidLen) ← asn1ParseOid d algoContent algoLen
  let oidLen := min oidLen 32
  let pubkeyOid ← copy d 32 oid oidLen
  let cert := { cert with pubkeyOid := pubkeyOid }
  let (algoContentLen, algoHeader) ← asn1Header d content contentLen
  let offset := algoHeader + algoContentLen
  require (offset < contentLen)
  let (bitString, bitLen) ← asn1ParseBitString d (content + offset) (contentLen - offset)
  let rsaEncryption ← x509OidEqual d oid oidLen oidRsaEncryption
  if rsaEncryption then do
    let (rsaContent, rsaLen) ← asn1ParseSequence d bitString bitLen
    let (mod, modLen) ← asn1ParseInteger d rsaContent rsaLen
    let (mod, modLen) ← x509SkipZeros d modLen mod
    require (modLen ≤ rsaMaxModulusBytes)
    let modulus ← copy d rsaMaxModulusBytes mod modLen
    let (modContentLen, modHeader) ← asn1Header d rsaContent rsaLen
    let rsaOffset := modHeader + modContentLen
    let (exp, expLen) ← asn1ParseInteger d (rsaContent + rsaOffset) (rsaLen - rsaOffset)
    let exponent ← copy d 16 exp (min expLen 16)
    let key ← rsaPubkeyInit modulus exponent
    pure { cert with pubkeyModulus := modulus, pubkeyExponent := exponent, rsaKey := key, rsaKeyReady := true }
  else pure cert

/-! ## Extensions -/

def x509ParseBasicConstraints (cert : X509Cert) (p len : Nat) : Parser X509Cert := do
  let (content, contentLen) ← asn1ParseSequence d p len
  let cert := { cert with isCa := false, pathLenConstraint := -1 }
  let (cert, offset) ← (do
    if 0 < contentLen then do
      let tag ← byte d content
      if tag = asn1TagBoolean then do
        let (value, valueLen) ← asn1ParseContainer d asn1TagBoolean content contentLen
        require (valueLen = 1)
        let b ← byte d value
        let offset ← asn1SkipTlv d content contentLen 0
        pure ({ cert with isCa := b != 0 }, offset)
      else pure (cert, 0)
    else pure (cert, 0))
  if offset < contentLen then do
    let (pathLen, pathLenSize) ← asn1ParseInteger d (content + offset) (contentLen - offset)
    require (pathLenSize ≠ 0 ∧ pathLenSize ≤ 4)
    let first ← byte d pathLen
    if 1 < pathLenSize ∧ first = 0 then do
      let second ← byte d (pathLen + 1)
      require (0x80 ≤ second)
    require (first.toNat < 0x80)
    let pathValue ← bigEndian d pathLenSize pathLen 0
    let offset ← asn1SkipTlv d content contentLen offset
    require (offset = contentLen)
    pure { cert with pathLenConstraint := pathValue }
  else do
    require (offset = contentLen)
    pure cert

/-- The loop of `x509_parse_extended_key_usage`. -/
def x509ParseEkuFrom (content contentLen : Nat) : Nat → Nat → Bool → Parser Bool
  | 0, offset, found => if offset < contentLen then spin else do
      require (offset = contentLen)
      pure found
  | rounds + 1, offset, found =>
    if offset < contentLen then do
      let (oid, oidLen) ← asn1ParseOid d (content + offset) (contentLen - offset)
      let codeSigning ← x509OidEqual d oid oidLen oidCodeSigning
      let offset ← asn1SkipTlv d content contentLen offset
      x509ParseEkuFrom content contentLen rounds offset (found || codeSigning)
    else do
      require (offset = contentLen)
      pure found

def x509ParseExtendedKeyUsage (cert : X509Cert) (p len : Nat) : Parser X509Cert := do
  let (content, contentLen) ← asn1ParseSequence d p len
  require (contentLen ≠ 0)
  let found ← x509ParseEkuFrom d content contentLen contentLen 0 false
  pure { cert with ekuPresent := true, hasCodeSigningEku := found }

def x509ParseKeyUsage (cert : X509Cert) (p len : Nat) : Parser X509Cert := do
  require (3 ≤ len)
  let tag ← byte d p
  require (tag = asn1TagBitString)
  let (contentLen, headerLen) ← asn1ReadLength d p len
  require (headerLen < len ∧ contentLen ≠ 0 ∧ contentLen ≤ len - headerLen)
  let unusedBits ← byte d (p + headerLen)
  require (unusedBits ≤ 7)
  if 1 < contentLen then do
    let bits ← byte d (p + headerLen + 1)
    let digitalSignature : UInt16 := if bits &&& 0x80 = 0 then 0 else 0x0001
    let keyCertSign : UInt16 := if bits &&& 0x04 = 0 then 0 else keyUsageKeyCertSign
    pure { cert with keyUsagePresent := true, keyUsage := digitalSignature ||| keyCertSign }
  else pure { cert with keyUsagePresent := true, keyUsage := 0 }

/-- One extension in `x509_parse_extensions`, of the sequence with the given content. -/
def x509ParseExtension (cert : X509Cert) (content len : Nat) : Parser X509Cert := do
  let (oid, oidLen) ← asn1ParseOid d content len
  let offset ← asn1SkipTlv d content len 0
  let offset ← (do
    if offset < len then do
      let tag ← byte d (content + offset)
      if tag = asn1TagBoolean then asn1SkipTlv d content len offset else pure offset
    else pure offset)
  require (offset < len)
  let (value, valueLen) ← asn1ParseContainer d asn1TagOctetString (content + offset) (len - offset)
  let offset ← asn1SkipTlv d content len offset
  require (offset = len)
  let basicConstraints ← x509OidEqual d oid oidLen oidBasicConstraints
  if basicConstraints then x509ParseBasicConstraints d cert value valueLen
  else do
    let extendedKeyUsage ← x509OidEqual d oid oidLen oidExtendedKeyUsage
    if extendedKeyUsage then x509ParseExtendedKeyUsage d cert value valueLen
    else do
      let keyUsage ← x509OidEqual d oid oidLen oidKeyUsage
      if keyUsage then x509ParseKeyUsage d cert value valueLen else pure cert

/-- The loop of `x509_parse_extensions`. -/
def x509ParseExtensionsFrom (sequence sequenceLen : Nat) : Nat → Nat → X509Cert → Parser X509Cert
  | 0, offset, cert => if offset < sequenceLen then spin else do
      require (offset = sequenceLen)
      pure cert
  | rounds + 1, offset, cert =>
    if offset < sequenceLen then do
      let (content, len) ← asn1ParseSequence d (sequence + offset) (sequenceLen - offset)
      let cert ← x509ParseExtension d cert content len
      let offset ← asn1SkipTlv d sequence sequenceLen offset
      x509ParseExtensionsFrom sequence sequenceLen rounds offset cert
    else do
      require (offset = sequenceLen)
      pure cert

def x509ParseExtensions (cert : X509Cert) (p len : Nat) : Parser X509Cert := do
  let (extensions, extensionsLen) ← asn1ParseContainer d (asn1TagContextSpecific ||| asn1TagConstructed ||| 3) p len
  let (sequence, sequenceLen) ← asn1ParseSequence d extensions extensionsLen
  x509ParseExtensionsFrom d sequence sequenceLen sequenceLen 0 cert

/-! ## `x509_parse_cert` -/

def x509ParseVersion (cert : X509Cert) (tbs tbsLen : Nat) : Parser (X509Cert × Nat) := do
  let cert := { cert with version := 1 }
  if 0 < tbsLen then do
    let tag ← byte d tbs
    if tag = asn1TagContextSpecific ||| asn1TagConstructed then do
      let version ← attempt (asn1ParseContainer d (asn1TagContextSpecific ||| asn1TagConstructed) tbs tbsLen)
      let cert ← (do
        match version with
        | none => pure cert
        | some (p, len) => do
            let number ← attempt (asn1ParseInteger d p len)
            match number with
            | none => pure cert
            | some (p, len) =>
              if 0 < len then do
                let b ← byte d p
                pure { cert with version := (b.toNat : Int) + 1 }
              else pure cert)
      let offset ← asn1SkipTlv d tbs tbsLen 0
      pure (cert, offset)
    else pure (cert, 0)
  else pure (cert, 0)

def x509AlgorithmOid (p len : Nat) : Parser (Option (List UInt8)) := do
  let oid ← attempt (asn1ParseOid d p len)
  match oid with
  | none => pure none
  | some (oid, oidLen) => do
      let content ← copy d 32 oid (min oidLen 32)
      pure (some content)

def x509SkipUniqueIds (tbs tbsLen : Nat) : Nat → Nat → Parser Nat
  | 0, offset => if offset < tbsLen then spin else pure offset
  | rounds + 1, offset =>
    if offset < tbsLen then do
      let tag ← byte d (tbs + offset)
      if tag = asn1TagContextSpecific ||| 1 ∨ tag = asn1TagContextSpecific ||| 2 then do
        let offset ← asn1SkipTlv d tbs tbsLen offset
        x509SkipUniqueIds tbs tbsLen rounds offset
      else pure offset
    else pure offset

/-- The fields of a `TBSCertificate` from the serial number to the public key: the certificate and
the offset behind them. -/
def x509ParseTbsFields (cert : X509Cert) (tbs tbsLen offset : Nat) : Parser (X509Cert × Nat) := do
  require (offset < tbsLen)
  let (serial, serialLen) ← asn1ParseInteger d (tbs + offset) (tbsLen - offset)
  let serialNumber ← copy d 64 serial (min serialLen 64)
  let offset ← asn1SkipTlv d tbs tbsLen offset
  require (offset < tbsLen)
  let (algorithm, algorithmLen) ← asn1ParseSequence d (tbs + offset) (tbsLen - offset)
  let signatureOid ← x509AlgorithmOid d algorithm algorithmLen
  let offset ← asn1SkipTlv d tbs tbsLen offset
  require (offset < tbsLen)
  let issuer ← x509ParseName d (tbs + offset) (tbsLen - offset)
  let offset ← asn1SkipTlv d tbs tbsLen offset
  require (offset < tbsLen)
  let (notBefore, notAfter) ← x509ParseValidity d (tbs + offset) (tbsLen - offset)
  let offset ← asn1SkipTlv d tbs tbsLen offset
  require (offset < tbsLen)
  let subject ← x509ParseName d (tbs + offset) (tbsLen - offset)
  let offset ← asn1SkipTlv d tbs tbsLen offset
  require (offset < tbsLen)
  let cert := { cert with
    serialNumber := serialNumber
    signatureOid := signatureOid.getD []
    issuer := issuer
    notBefore := notBefore
    notAfter := notAfter
    subject := subject }
  let cert ← x509ParseSpki d cert (tbs + offset) (tbsLen - offset)
  let offset ← asn1SkipTlv d tbs tbsLen offset
  pure (cert, offset)

/-- The optional fields at the end of a `TBSCertificate`. -/
def x509ParseTbsEnd (cert : X509Cert) (tbs tbsLen offset : Nat) : Parser X509Cert := do
  let cert := { cert with pathLenConstraint := -1 }
  let offset ← x509SkipUniqueIds d tbs tbsLen tbsLen offset
  if offset < tbsLen then do
    let tag ← byte d (tbs + offset)
    if tag = asn1TagContextSpecific ||| asn1TagConstructed ||| 3 then do
      let total ← asn1TlvTotalLength d (tbs + offset) (tbsLen - offset)
      let cert ← x509ParseExtensions d cert (tbs + offset) total
      require (offset + total = tbsLen)
      pure cert
    else fail
  else do
    require (offset = tbsLen)
    pure cert

/-- The signature algorithm and the signature, behind the `TBSCertificate`. -/
def x509ParseSignature (cert : X509Cert) (content contentLen : Nat) : Parser X509Cert := do
  let offset ← asn1TlvTotalLength d content contentLen
  require (offset < contentLen)
  let algorithm ← attempt (asn1ParseSequence d (content + offset) (contentLen - offset))
  let algorithmOid ← (do
    match algorithm with
    | none => pure none
    | some (p, len) => x509AlgorithmOid d p len)
  let offset ← asn1SkipTlv d content contentLen offset
  require (offset < contentLen)
  let (value, valueLen) ← asn1ParseBitString d (content + offset) (contentLen - offset)
  require (valueLen ≤ rsaMaxModulusBytes)
  let signature ← copy d rsaMaxModulusBytes value valueLen
  pure { cert with signatureAlgoOid := algorithmOid.getD [], signature := signature }

def x509ParseCert : Parser X509Cert := do
  require (d.length ≠ 0 ∧ d.length ≤ x509MaxCertSize)
  let raw ← copy d x509MaxCertSize 0 d.length
  let (content, contentLen) ← asn1ParseSequence d 0 d.length
  let certTotal ← asn1TlvTotalLength d 0 d.length
  require (certTotal = d.length)
  let (tbs, tbsLen) ← asn1ParseSequence d content contentLen
  let tbsTotal ← asn1TlvTotalLength d content contentLen
  require (tbsLen ≠ 0)
  require (tbsTotal ≤ x509MaxCertSize)
  let tbsBytes ← copy d x509MaxCertSize content tbsTotal
  let cert := { X509Cert.cleared with raw := raw, tbs := tbsBytes }
  let (cert, offset) ← x509ParseVersion d cert tbs tbsLen
  let (cert, offset) ← x509ParseTbsFields d cert tbs tbsLen offset
  let cert ← x509ParseTbsEnd d cert tbs tbsLen offset
  x509ParseSignature d cert content contentLen

end

end Monios.Model.X509Parse
