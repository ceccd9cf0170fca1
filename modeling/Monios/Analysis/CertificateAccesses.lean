import Monios.Model.X509Parse

/-!
# What the certificate parser touches

`InBounds` says of an access that it lies in the input or in its field, and of a loop that it ends.
Every function of the parser keeps it when the bytes it may use lie in the input, and hands the next
one bytes that do: `asn1ParseContainer_keeps` is the step from one level of the nesting to the next,
and `asn1SkipTlv_keeps` the one to the next element on the same level.
-/

set_option autoImplicit false

namespace Monios.Analysis.CertificateAccesses

open Monios.Library Monios.Library.Logged Monios.Model Monios.Model.X509Parse

def InBounds (size : Nat) : Access → Prop
  | .read i => i < size
  | .span i n => i + n ≤ size
  | .field fieldSize i n => i + n ≤ fieldSize
  | .entry k => k < x509MaxNameEntries
  | .spin => False

section

variable {d : List UInt8} {p len offset : Nat}

abbrev Stays {α : Type} (d : List UInt8) (m : Parser α) (Q : α → Prop) : Prop :=
  Logged.Keeps (InBounds d.length) m Q

/-- A byte inside the input may be read. -/
theorem byte_keeps {i : Nat} (h : i < d.length) : Stays d (byte d i) fun b => b = d.getD i 0 :=
  .emit_bind h (.pure rfl)

/-- A range inside the input may be read. -/
theorem bytes_keeps {i n : Nat} (h : i + n ≤ d.length) :
    Stays d (bytes d i n) fun content => content = slice d i n ∧ content.length = n := by
  refine .emit_bind h (.pure ⟨rfl, ?_⟩)
  unfold slice
  rw [List.length_take, List.length_drop]
  omega

/-- A copy stays inside the input and its buffer. -/
theorem copy_keeps {size i n : Nat} (h : i + n ≤ d.length) (hsize : n ≤ size) :
    Stays d (copy d size i n) fun content => content = slice d i n ∧ content.length = n := by
  have hfield : 0 + n ≤ size := by omega
  exact .bind (bytes_keeps h) fun content hc => .emit_bind hfield (.pure hc)

/-- The bytes of a length are read inside the input. -/
theorem bigEndian_keeps (n i value : Nat) (h : i + n ≤ d.length) :
    Stays d (bigEndian d n i value) fun _ => True := by
  induction n generalizing i value with
  | zero => exact .pure trivial
  | succ n ih => exact .bind (byte_keeps (by omega)) fun b _ => ih (i + 1) _ (by omega)

/-- `asn1_read_length` reads inside what it is given. -/
theorem asn1ReadLength_keeps (h : p + len ≤ d.length) :
    Stays d (asn1ReadLength d p len) fun r => 2 ≤ r.2 := by
  refine .require_bind fun hlen => .bind (byte_keeps (by omega)) fun b _ => .ite
    (fun _ => .pure (Nat.le_refl 2)) fun _ => ?_
  refine .require_bind fun hcount => .require_bind fun hroom => ?_
  refine .bind (byte_keeps (by omega)) fun first _ => .require_bind fun _ => ?_
  exact .bind (bigEndian_keeps _ _ _ (by omega)) fun value _ => .pure (Nat.le_add_right _ _)

/-- A header leaves room for its contents. -/
theorem asn1Header_keeps (h : p + len ≤ d.length) :
    Stays d (asn1Header d p len) fun r => 2 ≤ r.2 ∧ r.2 + r.1 ≤ len := by
  refine .bind (asn1ReadLength_keeps h) fun r hr => .require_bind fun hin => .pure ⟨hr, ?_⟩
  show r.2 + r.1 ≤ len
  omega

/-- A whole encoding is at least two bytes long and inside what is given. -/
theorem asn1TlvTotalLength_keeps (h : p + len ≤ d.length) :
    Stays d (asn1TlvTotalLength d p len) fun total => 2 ≤ total ∧ total ≤ len := by
  refine .bind (asn1Header_keeps h) fun r hr => .pure ⟨?_, hr.2⟩
  omega

/-- Skipping moves forward. -/
theorem asn1SkipTlv_keeps (h : p + len ≤ d.length) (offset : Nat) :
    Stays d (asn1SkipTlv d p len offset) fun o => offset + 2 ≤ o ∧ o ≤ len := by
  refine .require_bind fun ho => .bind (asn1TlvTotalLength_keeps (by omega)) fun total ht => .pure
    ⟨?_, ?_⟩
  · omega
  · omega

/-- The contents lie inside the encoding. -/
theorem asn1ParseContainer_keeps (h : p + len ≤ d.length) (tag : UInt8) :
    Stays d (asn1ParseContainer d tag p len) fun r => p ≤ r.1 ∧ r.1 + r.2 ≤ p + len := by
  refine .require_bind fun hlen => .bind (byte_keeps (by omega)) fun t _ => .require_bind fun _ =>
    ?_
  refine .bind (asn1Header_keeps h) fun r hr => .pure ⟨Nat.le_add_right _ _, ?_⟩
  show p + r.2 + r.1 ≤ p + len
  omega

/-- The bits lie inside the encoding. -/
theorem asn1ParseBitString_keeps (h : p + len ≤ d.length) :
    Stays d (asn1ParseBitString d p len) fun r => p ≤ r.1 ∧ r.1 + r.2 ≤ p + len := by
  refine .require_bind fun _ => .bind (asn1ParseContainer_keeps h _) fun r hr =>
    .require_bind fun hpos => .pure ⟨?_, ?_⟩
  · show p ≤ r.1 + 1
    omega
  · show r.1 + 1 + (r.2 - 1) ≤ p + len
    omega

/-- The characters go into the buffer. -/
theorem asn1BmpChars_keeps {maxLen n i : Nat} {out : List UInt8} (h : i + 2 * n ≤ d.length)
    (hroom : out.length + n ≤ maxLen) :
    Stays d (asn1BmpChars d maxLen n i out) fun r => r.length = out.length + n := by
  induction n generalizing i out with
  | zero => exact .pure rfl
  | succ n ih =>
    refine .bind (byte_keeps (by omega)) fun high _ => .require_bind fun _ => .bind
      (byte_keeps (by omega)) fun low _ => ?_
    have hfield : out.length + 1 ≤ maxLen := by omega
    refine .emit_bind hfield ((ih (by omega) (by simp; omega)).mono fun r hr => hr.trans ?_)
    simp
    omega

/-- A string and its end go into the buffer. -/
theorem asn1ParseString_keeps (h : p + len ≤ d.length) (maxLen : Nat) :
    Stays d (asn1ParseString d p len maxLen) fun out => out.length + 1 ≤ maxLen := by
  refine .require_bind fun hlen => .bind (byte_keeps (by omega)) fun tag _ =>
    .require_bind fun _ => ?_
  refine .bind (asn1Header_keeps h) fun r hr => .ite (fun _ => .require_bind fun _ => ?_) fun _ =>
    ?_
  · refine .bind (asn1BmpChars_keeps (by omega) (by simp)) fun out hout => ?_
    have hfield : min (r.1 / 2) (maxLen - 1) + 1 ≤ maxLen := by omega
    refine .emit_bind hfield (.pure ?_)
    rw [hout, List.length_nil]
    omega
  · refine .bind (copy_keeps (by omega) (by omega)) fun out hout => ?_
    have hfield : min r.1 (maxLen - 1) + 1 ≤ maxLen := by omega
    refine .emit_bind hfield (.pure ?_)
    rw [hout.2]
    exact hfield

/-- An attribute is read from inside its set, and there is an entry for it. -/
theorem x509ParseAttribute_keeps (h : p + len ≤ d.length) (rdnIndex : Nat) {count : Nat}
    (hcount : count < x509MaxNameEntries) :
    Stays d (x509ParseAttribute d rdnIndex count p len) fun _ => True := by
  refine .bind (asn1ParseContainer_keeps h _) fun oid hoid => .require_bind fun hsize => ?_
  refine .bind (asn1Header_keeps h) fun r hr => .require_bind fun hmore => .emit_bind hcount ?_
  refine .bind (asn1ParseString_keeps (by omega) _) fun value hvalue => ?_
  refine .bind (copy_keeps (by omega) hsize) fun _ _ => ?_
  have hle := (List.takeWhile_prefix (· != 0) (l := value)).length_le
  have hfield : 0 + ((value.takeWhile (· != 0)).length + 1) ≤ 128 := by omega
  exact .emit_bind hfield (.pure trivial)

/-- The loop over a set ends: each attribute takes at least two bytes. -/
theorem x509ParseSet_keeps (h : p + len ≤ d.length) (rdnIndex : Nat) {rounds : Nat}
    (hrounds : len ≤ offset + rounds) (name : List NameEntry) :
    Stays d (x509ParseSet d p len rdnIndex rounds offset name) fun _ => True := by
  induction rounds generalizing offset name with
  | zero => exact .ite (fun hmore => by omega) fun _ => .require_bind fun _ => .pure trivial
  | succ rounds ih =>
    refine .ite (fun hmore => .require_bind fun hcount => ?_) fun _ => .require_bind fun _ =>
      .pure trivial
    refine .bind (asn1ParseContainer_keeps (by omega) _) fun seq hseq => ?_
    refine .bind (asn1TlvTotalLength_keeps (by omega)) fun total htotal => ?_
    refine .bind (x509ParseAttribute_keeps (by omega) _ hcount) fun entry _ => ih (by omega) _

/-- The loop over the relative names ends. -/
theorem x509ParseRdns_keeps (h : p + len ≤ d.length) {rounds : Nat}
    (hrounds : len ≤ offset + rounds) (rdnIndex : Nat) (name : List NameEntry) :
    Stays d (x509ParseRdns d p len rounds offset rdnIndex name) fun _ => True := by
  induction rounds generalizing offset rdnIndex name with
  | zero => exact .ite (fun hmore => by omega) fun _ => .require_bind fun _ => .pure trivial
  | succ rounds ih =>
    refine .ite (fun hmore => ?_) fun _ => .require_bind fun _ => .pure trivial
    refine .bind (byte_keeps (by omega)) fun tag _ => .require_bind fun _ => ?_
    refine .bind (asn1ParseContainer_keeps (by omega) _) fun set hset => .require_bind fun _ => ?_
    refine .bind (x509ParseSet_keeps (by omega) _ (by omega) _) fun name _ => ?_
    refine .bind (asn1TlvTotalLength_keeps (by omega)) fun total htotal => .require_bind fun _ => ?_
    exact ih (by omega) _ _

/-- `x509_parse_name` reads inside the name. -/
theorem x509ParseName_keeps (h : p + len ≤ d.length) :
    Stays d (x509ParseName d p len) fun _ => True :=
  .bind (asn1ParseContainer_keeps h _) fun _ hr => x509ParseRdns_keeps (by omega) (by omega) _ _

/-- The digits of a time are read inside it. -/
theorem x509TimeDigits_keeps (h : p + len ≤ d.length) (n i : Nat) (hi : i + n ≤ len) :
    Stays d (x509TimeDigits d p len n i) fun _ => True := by
  induction n generalizing i with
  | zero => exact .pure trivial
  | succ n ih =>
    refine .bind (byte_keeps (by omega)) fun b _ => .ite (fun _ => ih _ (by omega)) fun _ => ?_
    exact .ite (fun _ => .pure trivial) fun _ => ih _ (by omega)

theorem x509TwoDigits_keeps {i : Nat} (h : i + 2 ≤ d.length) :
    Stays d (x509TwoDigits d i) fun _ => True :=
  .bind (byte_keeps (by omega)) fun _ _ => .bind (byte_keeps (by omega)) fun _ _ => .pure trivial

/-- A time is read inside its encoding. -/
theorem x509ParseTime_keeps (h : p + len ≤ d.length) (utc : Bool) :
    Stays d (x509ParseTime d p len utc) fun _ => True := by
  refine .ite (fun _ => .pure trivial) fun hlen => .bind (x509TimeDigits_keeps h _ _ (by omega)) fun digits _ => ?_
  refine .ite (fun _ => .pure trivial) fun _ => ?_
  refine .bind (Q := fun r : Nat × Nat => p + r.2 + 10 ≤ d.length) ?_ fun r hr => ?_
  · refine .bind (x509TwoDigits_keeps (by split at hlen <;> omega)) fun high _ => .ite (fun hutc => .pure ?_) fun hutc => ?_
    · rw [if_pos hutc] at hlen
      show p + 2 + 10 ≤ d.length
      omega
    · rw [if_neg hutc] at hlen
      refine .bind (x509TwoDigits_keeps (by omega)) fun low _ => .pure ?_
      show p + 4 + 10 ≤ d.length
      omega
  · refine .bind (x509TwoDigits_keeps (by omega)) fun _ _ => .bind
      (x509TwoDigits_keeps (by omega)) fun _ _ => ?_
    refine .bind (x509TwoDigits_keeps (by omega)) fun _ _ => .bind
      (x509TwoDigits_keeps (by omega)) fun _ _ => ?_
    exact .bind (x509TwoDigits_keeps (by omega)) fun _ _ => .pure trivial

theorem x509ValidityTime_keeps (h : p + len ≤ d.length) (offset : Nat) :
    Stays d (x509ValidityTime d p len offset) fun _ => True := by
  refine .require_bind fun ho => .bind (byte_keeps (by omega)) fun tag _ => .require_bind fun _ =>
    ?_
  refine .bind (asn1Header_keeps (by omega)) fun r hr => ?_
  exact .bind (x509ParseTime_keeps (by omega) _) fun time _ => .require_bind fun _ => .pure trivial

/-- Both times are read inside the validity. -/
theorem x509ParseValidity_keeps (h : p + len ≤ d.length) :
    Stays d (x509ParseValidity d p len) fun _ => True := by
  refine .bind (asn1ParseContainer_keeps h _) fun r hr => ?_
  refine .bind (x509ValidityTime_keeps (by omega) _) fun t _ => ?_
  exact .bind (x509ValidityTime_keeps (by omega) _) fun _ _ => .pure trivial

theorem x509OidEqual_keeps (h : p + len ≤ d.length) (right : List UInt8) :
    Stays d (x509OidEqual d p len right) fun _ => True :=
  .ite (fun _ => .bind (bytes_keeps h) fun _ _ => .pure trivial) fun _ => .pure trivial

/-- Leading zeros are skipped inside the number. -/
theorem x509SkipZeros_keeps (n i : Nat) (h : i + n ≤ d.length) :
    Stays d (x509SkipZeros d n i) fun r => r.1 + r.2 ≤ d.length := by
  induction n generalizing i with
  | zero => exact .pure h
  | succ n ih =>
    refine .ite (fun _ => .pure h) fun _ => .bind (byte_keeps (by omega)) fun b _ => ?_
    exact .ite (fun _ => ih _ (by omega)) fun _ => .pure h

/-- A number that fits is converted inside its words. -/
theorem bignumFromBytes_keeps {size : Nat} {content : List UInt8} (h : content.length ≤ size) :
    Stays d (bignumFromBytes size content) fun _ => True := by
  have hcontent : 0 + content.length ≤ size := by omega
  have hwords : 0 + 4 * min (((content.dropWhile (· == 0)).length + 3) / 4) 128 ≤ 512 := by omega
  exact .emit_bind hcontent (.emit_bind hwords (.pure trivial))

/-- The key fits into its buffers. -/
theorem rsaPubkeyInit_keeps {modulus exponent : List UInt8}
    (hm : modulus.length ≤ rsaMaxModulusBytes) (he : exponent.length ≤ 16) :
    Stays d (rsaPubkeyInit modulus exponent) fun _ => True :=
  .bind (bignumFromBytes_keeps hm) fun _ _ => .bind (bignumFromBytes_keeps he) fun _ _ => .pure trivial

def SameRanges (cert c : X509Cert) : Prop := c.tbs = cert.tbs ∧ c.signature = cert.signature

/-- Two steps that keep the recorded ranges. -/
theorem SameRanges.trans {a b c : X509Cert} (h : SameRanges a b) (h' : SameRanges b c) :
    SameRanges a c :=
  ⟨h'.1.trans h.1, h'.2.trans h.2⟩

variable (cert : X509Cert)

/-- The public key is read inside its encoding. -/
theorem x509ParseSpki_keeps (h : p + len ≤ d.length) :
    Stays d (x509ParseSpki d cert p len) (SameRanges cert) := by
  refine .bind (asn1ParseContainer_keeps h _) fun r hr => .bind
    (asn1ParseContainer_keeps (by omega) _) fun algo halgo => ?_
  refine .bind (asn1ParseContainer_keeps (by omega) _) fun oid hoid => ?_
  refine .bind (copy_keeps (by omega) (by omega)) fun pubkeyOid _ => .bind
    (asn1Header_keeps (by omega)) fun a ha => ?_
  refine .require_bind fun hmore => .bind (asn1ParseBitString_keeps (by omega)) fun bits hbits => ?_
  refine .bind (x509OidEqual_keeps (by omega) _) fun rsa _ => .ite (fun _ => ?_) fun _ => .pure
    ⟨rfl, rfl⟩
  refine .bind (asn1ParseContainer_keeps (by omega) _) fun key hkey => ?_
  refine .bind (asn1ParseContainer_keeps (by omega) _) fun mod hmod => ?_
  refine .bind (x509SkipZeros_keeps _ _ (by omega)) fun m hm => .require_bind fun hsize => ?_
  refine .bind (copy_keeps hm hsize) fun modulus hmodulus => .bind
    (asn1Header_keeps (by omega)) fun a ha => ?_
  refine .bind (asn1ParseContainer_keeps (by omega) _) fun exp hexp => ?_
  refine .bind (copy_keeps (by omega) (by omega)) fun exponent hexponent => ?_
  exact .bind (rsaPubkeyInit_keeps (by omega) (by omega)) fun _ _ => .pure ⟨rfl, rfl⟩

/-- The basic constraints are read inside their encoding. -/
theorem x509ParseBasicConstraints_keeps (h : p + len ≤ d.length) :
    Stays d (x509ParseBasicConstraints d cert p len) (SameRanges cert) := by
  refine .bind (asn1ParseContainer_keeps h _) fun r hr => ?_
  refine .bind (Q := fun c : X509Cert × Nat => SameRanges cert c.1 ∧ c.2 ≤ r.2) ?_ fun c hc => ?_
  · refine .ite (fun hpos => .bind (byte_keeps (by omega)) fun tag _ => ?_) fun _ => .pure
      ⟨⟨rfl, rfl⟩, Nat.zero_le _⟩
    refine .ite (fun _ => ?_) fun _ => .pure ⟨⟨rfl, rfl⟩, Nat.zero_le _⟩
    refine .bind (asn1ParseContainer_keeps (by omega) _) fun value hvalue =>
      .require_bind fun hone => ?_
    refine .bind (byte_keeps (by omega)) fun b _ => .bind (asn1SkipTlv_keeps (by omega) _) fun o ho => ?_
    exact .pure ⟨⟨rfl, rfl⟩, ho.2⟩
  · refine .ite (fun hmore => ?_) fun _ => .require_bind fun _ => .pure hc.1
    refine .bind (asn1ParseContainer_keeps (by omega) _) fun path hpath =>
      .require_bind fun hsize => ?_
    refine .bind (byte_keeps (by omega)) fun first _ => ?_
    have hrest : Stays d (do
        require (first.toNat < 0x80)
        let pathValue ← bigEndian d path.2 path.1 0
        let offset ← asn1SkipTlv d r.1 r.2 c.2
        require (offset = r.2)
        pure { c.1 with pathLenConstraint := pathValue }) (SameRanges cert) := by
      refine .require_bind fun _ => .bind (bigEndian_keeps _ _ _ (by omega)) fun _ _ => ?_
      exact .bind (asn1SkipTlv_keeps (by omega) _) fun _ _ => .require_bind fun _ => .pure hc.1
    refine .ite (fun htwo => .bind (byte_keeps (by omega)) fun second _ => .require_bind fun _ => hrest) fun _ => hrest

/-- The loop over the key purposes ends. -/
theorem x509ParseEkuFrom_keeps (h : p + len ≤ d.length) {rounds : Nat}
    (hrounds : len ≤ offset + rounds) (found : Bool) :
    Stays d (x509ParseEkuFrom d p len rounds offset found) fun _ => True := by
  induction rounds generalizing offset found with
  | zero => exact .ite (fun hmore => by omega) fun _ => .require_bind fun _ => .pure trivial
  | succ rounds ih =>
    refine .ite (fun hmore => ?_) fun _ => .require_bind fun _ => .pure trivial
    refine .bind (asn1ParseContainer_keeps (by omega) _) fun oid hoid => ?_
    refine .bind (x509OidEqual_keeps (by omega) _) fun _ _ => .bind
      (asn1SkipTlv_keeps h _) fun o ho => ih (by omega) _

theorem x509ParseExtendedKeyUsage_keeps (h : p + len ≤ d.length) :
    Stays d (x509ParseExtendedKeyUsage d cert p len) (SameRanges cert) := by
  refine .bind (asn1ParseContainer_keeps h _) fun r hr => .require_bind fun _ => ?_
  exact .bind (x509ParseEkuFrom_keeps (by omega) (by omega) _) fun _ _ => .pure ⟨rfl, rfl⟩

/-- The key usage is read inside its encoding. -/
theorem x509ParseKeyUsage_keeps (h : p + len ≤ d.length) :
    Stays d (x509ParseKeyUsage d cert p len) (SameRanges cert) := by
  refine .require_bind fun hlen => .bind (byte_keeps (by omega)) fun tag _ =>
    .require_bind fun _ => ?_
  refine .bind (asn1ReadLength_keeps h) fun r _ => .require_bind fun hr => ?_
  refine .bind (byte_keeps (by omega)) fun unused _ => .require_bind fun _ => .ite
    (fun hmore => ?_) fun _ => .pure ⟨rfl, rfl⟩
  exact .bind (byte_keeps (by omega)) fun bits _ => .pure ⟨rfl, rfl⟩

/-- An extension is read inside its encoding, whatever its kind. -/
theorem x509ParseExtension_keeps (h : p + len ≤ d.length) :
    Stays d (x509ParseExtension d cert p len) (SameRanges cert) := by
  refine .bind (asn1ParseContainer_keeps h _) fun oid hoid => .bind
    (asn1SkipTlv_keeps h _) fun o ho => ?_
  refine .bind (Q := fun o => o ≤ len) ?_ fun o ho => .require_bind fun hmore => ?_
  · refine .ite (fun hmore => .bind (byte_keeps (by omega)) fun tag _ => ?_) fun _ => .pure ho.2
    exact .ite (fun _ => (asn1SkipTlv_keeps h _).mono fun _ ho => ho.2) fun _ => .pure ho.2
  · refine .bind (asn1ParseContainer_keeps (by omega) _) fun value hvalue => ?_
    refine .bind (asn1SkipTlv_keeps h _) fun o _ => .require_bind fun _ => ?_
    refine .bind (x509OidEqual_keeps (by omega) _) fun _ _ => .ite (fun _ => ?_) fun _ => ?_
    · exact x509ParseBasicConstraints_keeps cert (by omega)
    refine .bind (x509OidEqual_keeps (by omega) _) fun _ _ => .ite (fun _ => ?_) fun _ => ?_
    · exact x509ParseExtendedKeyUsage_keeps cert (by omega)
    refine .bind (x509OidEqual_keeps (by omega) _) fun _ _ => .ite (fun _ => ?_) fun _ => .pure
      ⟨rfl, rfl⟩
    exact x509ParseKeyUsage_keeps cert (by omega)

/-- The loop over the extensions ends. -/
theorem x509ParseExtensionsFrom_keeps (h : p + len ≤ d.length) {rounds : Nat}
    (hrounds : len ≤ offset + rounds) :
    Stays d (x509ParseExtensionsFrom d p len rounds offset cert) (SameRanges cert) := by
  induction rounds generalizing offset cert with
  | zero => exact .ite (fun hmore => by omega) fun _ => .require_bind fun _ => .pure ⟨rfl, rfl⟩
  | succ rounds ih =>
    refine .ite (fun hmore => ?_) fun _ => .require_bind fun _ => .pure ⟨rfl, rfl⟩
    refine .bind (asn1ParseContainer_keeps (by omega) _) fun content hcontent => ?_
    refine .bind (x509ParseExtension_keeps cert (by omega)) fun c hc => .bind
      (asn1SkipTlv_keeps h _) fun o ho => ?_
    exact (ih c (by omega)).mono fun _ ht => hc.trans ht

/-- The extensions are read inside their encoding. -/
theorem x509ParseExtensions_keeps (h : p + len ≤ d.length) :
    Stays d (x509ParseExtensions d cert p len) (SameRanges cert) := by
  refine .bind (asn1ParseContainer_keeps h _) fun r hr => .bind
    (asn1ParseContainer_keeps (by omega) _) fun q hq => ?_
  exact x509ParseExtensionsFrom_keeps cert (by omega) (by omega)

/-- The version is read inside the signed part. -/
theorem x509ParseVersion_keeps (h : p + len ≤ d.length) :
    Stays d (x509ParseVersion d cert p len) fun r => SameRanges cert r.1 := by
  refine .ite (fun hpos => .bind (byte_keeps (by omega)) fun tag _ => ?_) fun _ => .pure ⟨rfl, rfl⟩
  refine .ite (fun _ => .attempt_bind (asn1ParseContainer_keeps h _) fun version hversion => ?_) fun _ => .pure ⟨rfl, rfl⟩
  refine .bind (Q := SameRanges cert) ?_ fun c hc => .bind (asn1SkipTlv_keeps h _) fun _ _ =>
    .pure hc
  cases version with
  | none => exact .pure ⟨rfl, rfl⟩
  | some r =>
    have hr := hversion r rfl
    refine .attempt_bind (asn1ParseContainer_keeps (by omega) _) fun number hnumber => ?_
    cases number with
    | none => exact .pure ⟨rfl, rfl⟩
    | some q =>
      have hq := hnumber q rfl
      refine .ite (fun hsome => .bind (byte_keeps ?_) fun b _ => .pure ⟨rfl, rfl⟩) fun _ => .pure
        ⟨rfl, rfl⟩
      omega

theorem x509AlgorithmOid_keeps (h : p + len ≤ d.length) :
    Stays d (x509AlgorithmOid d p len) fun _ => True := by
  refine .attempt_bind (asn1ParseContainer_keeps h _) fun oid hoid => ?_
  cases oid with
  | none => exact .pure trivial
  | some r =>
    have hr := hoid r rfl
    exact .bind (copy_keeps (by omega) (by omega)) fun _ _ => .pure trivial

/-- The loop over the optional fields ends. -/
theorem x509SkipUniqueIds_keeps (h : p + len ≤ d.length) {rounds : Nat}
    (hrounds : len ≤ offset + rounds) :
    Stays d (x509SkipUniqueIds d p len rounds offset) fun _ => True := by
  induction rounds generalizing offset with
  | zero => exact .ite (fun hmore => by omega) fun _ => .pure trivial
  | succ rounds ih =>
    refine .ite (fun hmore => .bind (byte_keeps (by omega)) fun tag _ => ?_) fun _ => .pure trivial
    exact .ite (fun _ => .bind (asn1SkipTlv_keeps h _) fun o ho => ih (by omega)) fun _ =>
      .pure trivial

/-- The fields of the signed part are read inside it. -/
theorem x509ParseTbsFields_keeps (h : p + len ≤ d.length) (offset : Nat) :
    Stays d (x509ParseTbsFields d cert p len offset) fun r => SameRanges cert r.1 := by
  refine .require_bind fun h₁ => .bind (asn1ParseContainer_keeps (by omega) _) fun serial hserial => ?_
  refine .bind (copy_keeps (by omega) (by omega)) fun _ _ => .bind
    (asn1SkipTlv_keeps h _) fun o₁ ho₁ => ?_
  refine .require_bind fun h₂ => .bind (asn1ParseContainer_keeps (by omega) _) fun algo halgo => ?_
  refine .bind (x509AlgorithmOid_keeps (by omega)) fun _ _ => .bind
    (asn1SkipTlv_keeps h _) fun o₂ ho₂ => ?_
  refine .require_bind fun h₃ => .bind (x509ParseName_keeps (by omega)) fun _ _ => ?_
  refine .bind (asn1SkipTlv_keeps h _) fun o₃ ho₃ => .require_bind fun h₄ => ?_
  refine .bind (x509ParseValidity_keeps (by omega)) fun _ _ => .bind
    (asn1SkipTlv_keeps h _) fun o₄ ho₄ => ?_
  refine .require_bind fun h₅ => .bind (x509ParseName_keeps (by omega)) fun _ _ => ?_
  refine .bind (asn1SkipTlv_keeps h _) fun o₅ ho₅ => .require_bind fun h₆ => ?_
  refine .bind (x509ParseSpki_keeps _ (by omega)) fun c hc => .bind
    (asn1SkipTlv_keeps h _) fun _ _ => .pure ?_
  exact ⟨hc.1, hc.2⟩

/-- What is behind the public key is read inside the signed part. -/
theorem x509ParseTbsEnd_keeps (h : p + len ≤ d.length) (offset : Nat) :
    Stays d (x509ParseTbsEnd d cert p len offset) (SameRanges cert) := by
  refine .bind (x509SkipUniqueIds_keeps h (by omega)) fun o _ => ?_
  refine .ite (fun hmore => .bind (byte_keeps (by omega)) fun tag _ => ?_) fun _ =>
    .require_bind fun _ => .pure ⟨rfl, rfl⟩
  refine .ite (fun _ => .bind (asn1TlvTotalLength_keeps (by omega)) fun total htotal => ?_) fun _ => .fail
  refine .bind (x509ParseExtensions_keeps _ (by omega)) fun c hc => .require_bind fun _ => .pure ?_
  exact ⟨hc.1, hc.2⟩

def Recorded (d content : List UInt8) : Prop :=
  ∃ i, i + content.length ≤ d.length ∧ content = slice d i content.length

/-- A copied range is recorded with its place. -/
theorem Recorded.of_copy {content : List UInt8} {i n : Nat} (h : i + n ≤ d.length)
    (hcontent : content = slice d i n ∧ content.length = n) : Recorded d content :=
  ⟨i, by rw [hcontent.2]; exact h, by rw [hcontent.2]; exact hcontent.1⟩

/-- The signature is recorded with its place. -/
theorem x509ParseSignature_keeps (h : p + len ≤ d.length) :
    Stays d (x509ParseSignature d cert p len) fun c => c.tbs = cert.tbs ∧
      Recorded d c.signature := by
  refine .bind (asn1TlvTotalLength_keeps h) fun o ho => .require_bind fun hmore => ?_
  refine .attempt_bind (asn1ParseContainer_keeps (by omega) _) fun algo halgo => ?_
  refine .bind (Q := fun _ => True) ?_ fun algorithmOid _ => ?_
  · cases algo with
    | none => exact .pure trivial
    | some r =>
      have hr := halgo r rfl
      exact x509AlgorithmOid_keeps (by omega)
  · refine .bind (asn1SkipTlv_keeps h _) fun o ho => .require_bind fun _ => ?_
    refine .bind (asn1ParseBitString_keeps (by omega)) fun value hvalue =>
      .require_bind fun hsize => ?_
    have hin : value.1 + value.2 ≤ d.length := by omega
    exact .bind (copy_keeps hin hsize) fun signature hs => .pure ⟨rfl, .of_copy hin hs⟩

end

/-- For every input the parser ends, reads only the input and writes only the fields of the
certificate; and when it succeeds, what it has recorded as signed and as the signature are ranges of
the input. -/
theorem x509ParseCert_keeps (d : List UInt8) :
    Logged.Keeps (InBounds d.length) (x509ParseCert d) fun cert =>
    Recorded d cert.tbs ∧ Recorded d cert.signature := by
  have hall : 0 + d.length ≤ d.length := by omega
  refine .require_bind fun hlen => .bind (copy_keeps hall hlen.2) fun raw _ => ?_
  refine .bind (asn1ParseContainer_keeps hall _) fun content hcontent => ?_
  refine .bind (asn1TlvTotalLength_keeps hall) fun _ _ => .require_bind fun _ => ?_
  have hin : content.1 + content.2 ≤ d.length := by omega
  refine .bind (asn1ParseContainer_keeps hin _) fun tbs htbs => .bind
    (asn1TlvTotalLength_keeps hin) fun total htotal => ?_
  refine .require_bind fun _ => .require_bind fun hsize => ?_
  have htotal' : content.1 + total ≤ d.length := by omega
  refine .bind (copy_keeps htotal' hsize) fun tbsBytes hbytes => ?_
  refine .bind (x509ParseVersion_keeps _ (by omega)) fun c₁ h₁ => .bind
    (x509ParseTbsFields_keeps _ (by omega) _) fun c₂ h₂ => ?_
  refine .bind (x509ParseTbsEnd_keeps _ (by omega) _) fun c₃ h₃ => ?_
  refine (x509ParseSignature_keeps _ hin).mono fun c hc => ⟨?_, hc.2⟩
  rw [hc.1, h₃.1, h₂.1, h₁.1]
  exact .of_copy htotal' hbytes

end Monios.Analysis.CertificateAccesses
