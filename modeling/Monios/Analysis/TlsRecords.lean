import Mathlib.Tactic.IntervalCases
import Monios.Analysis.AesInverse
import Monios.Library.RecordStream
import Monios.Model.Tls

/-!
# TLS records are protected

A record carries its payload, a tag over the payload, the type and the number of the record, and the
padding. What is encrypted at one end is decrypted at the other one, where the types are those of
`tls_decrypt_record`.
-/

set_option autoImplicit false

namespace Monios.Analysis.TlsRecords

open Monios.Library Monios.Model Monios.Analysis.AesInverse

variable {P : TlsPrimitives} {s r ctx : TlsCtx} {type : UInt8} {input payload msg plain iv key data : List UInt8}

theorem length_flatMap_four {α : Type} (f : α → List UInt8) (hf : ∀ x, (f x).length = 4)
    (xs : List α) :
    (xs.flatMap f).length = 4 * xs.length := by
  induction xs with
  | nil => rfl
  | cons x xs ih =>
    rw [List.flatMap_cons, List.length_append, hf, ih, List.length_cons]
    omega

def macOf (P : TlsPrimitives) (ctx : TlsCtx) (key : List UInt8) (n : Nat) (type : UInt8)
    (payload : List UInt8) : List UInt8 :=
  (tlsMac (tlsLinked P) ctx key (tlsMacInput n type ctx.version payload)).take (tlsMacKeyLen ctx)

/-- A tag has the length that the suite says. -/
theorem length_macOf (key : List UInt8) (n : Nat) (type : UInt8) (payload : List UInt8) :
    (macOf P ctx key n type payload).length = tlsMacKeyLen ctx := by
  unfold macOf tlsMac tlsMacKeyLen
  cases tlsCipherUsesSha256 ctx.cipherSuite with
  | true =>
    have hlength : (Hash.hmacSha256 key (tlsMacInput n type ctx.version payload)).length = 32 :=
      length_flatMap_four _ (fun _ => rfl) _
    exact List.length_take_of_le (Nat.le_of_eq hlength.symm)
  | false =>
    have hlength : (Hash.hmacSha1 key (tlsMacInput n type ctx.version payload)).length = 20 :=
      length_flatMap_four _ (fun _ => rfl) _
    exact List.length_take_of_le (Nat.le_of_eq hlength.symm)

/-- The input of the tag determines the number, the type and the payload. -/
theorem tlsMacInput_inj {n n' : Nat} (hn : n < 2 ^ 64) (hn' : n' < 2 ^ 64) {type type' : UInt8}
    {version : Nat} {payload payload' : List UInt8}
    (h : tlsMacInput n type version payload = tlsMacInput n' type' version payload') :
    n = n' ∧ type = type' ∧ payload = payload' := by
  unfold tlsMacInput tlsWriteUint16 at h
  simp only [List.append_assoc, List.cons_append, List.nil_append] at h
  obtain ⟨hnumber, hrest⟩ := List.append_inj h (by simp)
  simp only [List.cons.injEq, true_and] at hrest
  refine ⟨?_, hrest.1, hrest.2.2.2⟩
  -- the bytes of the number, one more of them at a time
  have hbyte (i : Nat) (hi : i < 8) : n / 2 ^ (56 - i * 8) % 256 = n' / 2 ^ (56 - i * 8) % 256 := by
    have hget := congrArg (fun l => l[i]?) hnumber
    simp only [List.getElem?_map, List.getElem?_range hi, Option.map_some,
      Option.some.injEq] at hget
    have hnat := congrArg UInt8.toNat hget
    rwa [UInt8.toNat_ofNat', UInt8.toNat_ofNat'] at hnat
  have hfirst (k : Nat) (hk : k ≤ 8) : n / 2 ^ (64 - k * 8) = n' / 2 ^ (64 - k * 8) := by
    induction k with
    | zero => exact (Nat.div_eq_of_lt hn).trans (Nat.div_eq_of_lt hn').symm
    | succ k ih =>
      have hpow : 2 ^ (64 - k * 8) = 2 ^ (56 - k * 8) * 256 := (pow_add 2 (56 - k * 8) 8 ▸ by congr 1; omega)
      have hpre := ih (by omega)
      rw [hpow, ← Nat.div_div_eq_div_mul, ← Nat.div_div_eq_div_mul] at hpre
      have hnext := hbyte k (by omega)
      rw [show 64 - (k + 1) * 8 = 56 - k * 8 by omega]
      omega
  simpa using hfirst 8 (Nat.le_refl 8)

def SuiteKey (key : List UInt8) : Prop := key.length = 16 ∨ key.length = 32

/-- A key of a suite can be expanded. -/
theorem SuiteKey.init (h : SuiteKey key) : ∃ aes, aesInit key = some aes := by
  apply Option.isSome_iff_exists.mp (aesInit_isSome _)
  rcases h with h | h
  · exact Or.inl h
  · exact Or.inr (Or.inr h)

/-- Decryption undoes encryption under a key of the suite. -/
theorem tlsAesCbc_inverse (hkey : SuiteKey key) (iv : List UInt8) (hdata : data.length % 16 = 0) :
    ∃ cipher, tlsAesCbc aesEncryptCbc key iv data = some cipher ∧ cipher.length = data.length ∧
      tlsAesCbc aesDecryptCbc key iv cipher = some data := by
  obtain ⟨aes, haes⟩ := hkey.init
  obtain ⟨hok, hback⟩ := aesCbcBuffers_inverse (aesSetIv aes (Block.ofBytes iv)) hdata
  refine ⟨(aesCbcBuffers aesEncryptCbc (aesSetIv aes (Block.ofBytes iv)) data).2, ?_,
    length_aesCbcBuffers _ _ _, ?_⟩
  · unfold tlsAesCbc
    rw [haes]
    exact if_neg (not_not.mpr hok)
  · unfold tlsAesCbc
    rw [haes, Option.bind_some, hback]
    rfl

/-- Decryption keeps the length. -/
theorem length_tlsAesCbc (h : tlsAesCbc aesDecryptCbc key iv data = some plain) :
    plain.length = data.length := by
  unfold tlsAesCbc at h
  obtain ⟨aes, -, h⟩ := Option.bind_eq_some_iff.mp h
  dsimp only at h
  split at h
  · cases h
  · rw [← Option.some.inj h]
    exact length_aesCbcBuffers _ _ _

/-- The first blocks of a record decrypt without those behind them. -/
theorem tlsAesCbc_append {first rest firstPlain : List UInt8} (h : first.length % 16 = 0)
    (h' : (first ++ rest).length % 16 = 0)
    (hfirst : tlsAesCbc aesDecryptCbc key iv first = some firstPlain)
    (hall : tlsAesCbc aesDecryptCbc key iv (first ++ rest) = some plain) :
    firstPlain <+: plain := by
  unfold tlsAesCbc at hfirst hall
  obtain ⟨aes, haes, hfirst⟩ := Option.bind_eq_some_iff.mp hfirst
  rw [haes, Option.bind_some] at hall
  dsimp only at hfirst hall
  split at hfirst
  · cases hfirst
  split at hall
  · cases hall
  rw [← Option.some.inj hfirst, ← Option.some.inj hall]
  exact aesCbcBuffers_append _ h h'

def padding (p : Nat) : List UInt8 := List.replicate (p + 1) (UInt8.ofNat p)

theorem length_padding (p : Nat) : (padding p).length = p + 1 := List.length_replicate

def padLen (ctx : TlsCtx) (payload : List UInt8) : Nat :=
  (16 - (payload.length + tlsMacKeyLen ctx + 1) % 16) % 16

def sealedText (P : TlsPrimitives) (s : TlsCtx) (n : Nat) (record : UInt8 × List UInt8) :
    List UInt8 :=
  record.2 ++ macOf P s s.clientMacKey n record.1 record.2 ++ padding (padLen s record.2)

def ivOf (n : Nat) : List UInt8 := (List.range 16).map fun i => UInt8.ofNat (0x33 + n * 13 + i * 7)

def sealedBytes (P : TlsPrimitives) (s : TlsCtx) (n : Nat) (record : UInt8 × List UInt8) :
    List UInt8 :=
  ivOf n ++ (tlsAesCbc aesEncryptCbc s.clientWriteKey (ivOf n) (sealedText P s n record)).getD []

def sealedWire (P : TlsPrimitives) (s : TlsCtx) (n : Nat) (record : UInt8 × List UInt8) :
    List UInt8 :=
  [record.1] ++ tlsWriteUint16 s.version ++ tlsWriteUint16 (sealedBytes P s n record).length ++ sealedBytes P s n record

def Fits (s : TlsCtx) (payload : List UInt8) : Prop := payload.length + tlsMacKeyLen s + 17 ≤ 4096

theorem length_ivOf (n : Nat) : (ivOf n).length = 16 := by simp [ivOf]

theorem tlsMacKeyLen_cases (ctx : TlsCtx) : tlsMacKeyLen ctx = 20 ∨ tlsMacKeyLen ctx = 32 := by
  unfold tlsMacKeyLen
  split
  · exact Or.inr rfl
  · exact Or.inl rfl

/-- The length of the text that is encrypted. -/
theorem length_sealedText (P : TlsPrimitives) (s : TlsCtx) (n : Nat) (record : UInt8 × List UInt8) :
    (sealedText P s n record).length = record.2.length + tlsMacKeyLen s + padLen s record.2 +
      1 := by
  unfold sealedText
  rw [List.length_append, List.length_append, length_macOf, length_padding]
  omega

/-- The padding fills the last block. -/
theorem padLen_spec (s : TlsCtx) (payload : List UInt8) :
    padLen s payload < 16 ∧ (payload.length + tlsMacKeyLen s + padLen s payload + 1) % 16 = 0 := by
  unfold padLen
  omega

/-- A sealed record is its IV and the encrypted text, which decrypts again. -/
theorem sealedBytes_spec (hkey : SuiteKey s.clientWriteKey) (n : Nat)
    (record : UInt8 × List UInt8) :
    ∃ cipher, sealedBytes P s n record = ivOf n ++ cipher ∧
      cipher.length = (sealedText P s n record).length ∧
      tlsAesCbc aesEncryptCbc s.clientWriteKey (ivOf n) (sealedText P s n record) = some cipher ∧
      tlsAesCbc aesDecryptCbc s.clientWriteKey (ivOf n) cipher =
      some (sealedText P s n record) := by
  have hmultiple : (sealedText P s n record).length % 16 = 0 := by
    rw [length_sealedText]
    exact (padLen_spec s record.2).2
  obtain ⟨cipher, henc, hlength, hdec⟩ := tlsAesCbc_inverse hkey (ivOf n) hmultiple
  refine ⟨cipher, ?_, hlength, henc, hdec⟩
  unfold sealedBytes
  rw [henc, Option.getD_some]

theorem length_sealedBytes (hkey : SuiteKey s.clientWriteKey) (n : Nat)
    (record : UInt8 × List UInt8) :
    (sealedBytes P s n record).length = 16 + (sealedText P s n record).length := by
  obtain ⟨cipher, hbytes, hlength, -⟩ := sealedBytes_spec (P := P) hkey n record
  rw [hbytes, List.length_append, length_ivOf, hlength]

theorem sealedText_eq (P : TlsPrimitives) (s : TlsCtx) (n : Nat) (record : UInt8 × List UInt8) :
    sealedText P s n record = record.2 ++ macOf P s s.clientMacKey n record.1 record.2 ++
      padding ((16 - ((record.2 ++ macOf P s s.clientMacKey n record.1 record.2).length +
        1) % 16) % 16) := by
  rw [List.length_append, length_macOf]
  rfl

/-- What `tls_encrypt_record` returns is the sealed record. -/
theorem tlsEncryptRecord_some (hactive : s.clientCipherActive = true)
    (hkey : SuiteKey s.clientWriteKey) {maxOutput : Nat} (record : UInt8 × List UInt8)
    {wire : List UInt8} {s' : TlsCtx}
    (h : tlsEncryptRecord (tlsLinked P) record.1 record.2 maxOutput s = (some wire, s')) :
    Fits s record.2 ∧ wire = sealedWire P s s.clientSeq record ∧
      s' = { s with clientSeq := s.clientSeq + 1 } := by
  obtain ⟨cipher, hbytes, -, henc, -⟩ := sealedBytes_spec (P := P) hkey s.clientSeq record
  have hlength := length_sealedBytes (P := P) hkey s.clientSeq record
  have hcipher : (tlsLinked P).aesEncryptCbc s.clientWriteKey (ivOf s.clientSeq) (sealedText P s s.clientSeq record) =
      some cipher := henc
  rw [sealedText_eq] at hcipher hlength
  unfold tlsEncryptRecord at h
  rw [if_neg (by simp [hactive]), if_neg (by simp [hactive])] at h
  dsimp only at h
  split at h
  · cases h
  next hfits =>
  split at h
  · cases h
  split at h
  · next hnone => cases hnone.symm.trans hcipher
  · next cipher' hsome =>
    obtain rfl : cipher' = cipher := Option.some.inj (hsome.symm.trans hcipher)
    obtain ⟨hwire, hs'⟩ := Prod.mk.inj h
    refine ⟨by unfold Fits; omega, ?_, hs'.symm⟩
    rw [← Option.some.inj hwire]
    unfold sealedWire
    rw [hlength, hbytes]
    simp only [List.append_assoc]
    rfl

/-- A record with room for it is encrypted. -/
theorem tlsEncryptRecord_of_fits (hactive : s.clientCipherActive = true)
    (hkey : SuiteKey s.clientWriteKey) {maxOutput : Nat} (record : UInt8 × List UInt8)
    (hfits : Fits s record.2) (hmax : 5 + (sealedBytes P s s.clientSeq record).length ≤ maxOutput) :
    tlsEncryptRecord (tlsLinked P) record.1 record.2 maxOutput s =
      (some (sealedWire P s s.clientSeq record), { s with clientSeq := s.clientSeq + 1 }) := by
  obtain ⟨cipher, hbytes, -, henc, -⟩ := sealedBytes_spec (P := P) hkey s.clientSeq record
  have hsome : (tlsEncryptRecord (tlsLinked P) record.1 record.2 maxOutput s).1.isSome = true := by
    have hlength := length_sealedBytes (P := P) hkey s.clientSeq record
    have hcipher : (tlsLinked P).aesEncryptCbc s.clientWriteKey (ivOf s.clientSeq) (sealedText P s s.clientSeq record) =
        some cipher := henc
    rw [sealedText_eq] at hcipher
    unfold Fits at hfits
    unfold tlsEncryptRecord
    rw [if_neg (by simp [hactive]), if_neg (by simp [hactive])]
    dsimp only
    rw [if_neg (by omega)]
    split
    · next hshort =>
      have hshort : maxOutput < 5 + (16 + (sealedText P s s.clientSeq record).length) := by
        rw [sealedText_eq]
        exact hshort
      omega
    · split
      · next hnone => cases hnone.symm.trans hcipher
      · rfl
  obtain ⟨wire, hwire⟩ := Option.isSome_iff_exists.mp hsome
  have hpair : tlsEncryptRecord (tlsLinked P) record.1 record.2 maxOutput s =
      (some wire, (tlsEncryptRecord (tlsLinked P) record.1 record.2 maxOutput s).2) := Prod.ext hwire rfl
  obtain ⟨-, hsealed, hs'⟩ := tlsEncryptRecord_some hactive hkey record hpair
  rw [hpair, hs', hsealed]

/-- The two ends of a connection: the keys of the one are those of the other, and the same number
comes next. -/
structure Mirrored (s r : TlsCtx) : Prop where
  sends : s.clientCipherActive = true
  receives : r.serverCipherActive = true
  key : r.serverWriteKey = s.clientWriteKey
  suiteKey : SuiteKey s.clientWriteKey
  macKey : r.serverMacKey = s.clientMacKey
  suite : r.cipherSuite = s.cipherSuite
  version : r.version = s.version
  number : r.serverSeq = s.clientSeq

def Protectable (type : UInt8) : Prop := type = 23 ∨ type = 22 ∨ type = 21

theorem Mirrored.macKeyLen (h : Mirrored s r) : tlsMacKeyLen r = tlsMacKeyLen s := by
  unfold tlsMacKeyLen
  rw [h.suite]

/-- The receiver computes the tag of the sender. -/
theorem Mirrored.macOf (h : Mirrored s r) (n : Nat) (type : UInt8) (payload : List UInt8) :
    macOf P r r.serverMacKey n type payload = macOf P s s.clientMacKey n type payload := by
  unfold TlsRecords.macOf tlsMac
  rw [h.macKeyLen, h.suite, h.version, h.macKey]

/-- The check of the padding passes for a padding only. -/
theorem drop_eq_padding {p : Nat} (hp : p + 1 ≤ plain.length)
    (h : ¬ (plain.drop (plain.length - (p + 1))).any (· != UInt8.ofNat p) = true) :
    plain.drop (plain.length - (p + 1)) = padding p := by
  apply List.eq_replicate_iff.mpr
  constructor
  · rw [List.length_drop]
    omega
  · intro b hb
    rw [List.any_eq_true] at h
    by_contra hne
    exact h ⟨b, hb, bne_iff_ne.mpr hne⟩

/-- What `tls_decrypt_record` accepts has padding and tag in place. -/
theorem tlsDecryptRecord_some {bytes : List UInt8} {r' : TlsCtx}
    (h : tlsDecryptRecord (tlsLinked P) type bytes r = some (msg, r')) :
    Protectable type ∧ bytes.length % 16 = 0 ∧ r' = { r with serverSeq := r.serverSeq + 1 } ∧
      ∃ p < 256,
      tlsAesCbc aesDecryptCbc r.serverWriteKey (bytes.take 16) (bytes.drop 16) =
        some (msg ++ macOf P r r.serverMacKey r.serverSeq type msg ++ padding p) := by
  unfold tlsDecryptRecord at h
  split at h
  · cases h
  next htype =>
  split at h
  · cases h
  next hbounds =>
  split at h
  · cases h
  next plain hplain =>
  dsimp only at h
  split at h
  · cases h
  next hpad =>
  split at h
  · cases h
  next hall =>
  split at h
  · cases h
  split at h
  · cases h
  split at h
  · cases h
  next htag =>
  obtain ⟨hmsg, rfl⟩ := Prod.mk.inj (Option.some.inj h)
  have htype := not_not.mp htype
  refine ⟨htype, by omega, rfl, (plain.getLastD 0).toNat, UInt8.toNat_lt _, ?_⟩
  have hplain : tlsAesCbc aesDecryptCbc r.serverWriteKey (bytes.take 16) (bytes.drop 16) =
      some plain := hplain
  have htag : macOf P r r.serverMacKey r.serverSeq type _ = _ := not_not.mp htag
  rw [hmsg] at htag
  rw [hplain, htag, ← drop_eq_padding (Nat.not_lt.mp hpad) hall, ← hmsg, List.take_append_drop,
    List.take_append_drop]

/-- A text with padding and tag in place is accepted. -/
theorem tlsDecryptRecord_of_text {bytes : List UInt8} (htype : Protectable type)
    (hfits : Fits r payload) {p : Nat} (hp : p < 16)
    (hbytes : bytes.length = 16 + (payload.length + tlsMacKeyLen r + p + 1))
    (hmultiple : (payload.length + tlsMacKeyLen r + p + 1) % 16 = 0)
    (hplain : tlsAesCbc aesDecryptCbc r.serverWriteKey (bytes.take 16) (bytes.drop 16) =
      some (payload ++ macOf P r r.serverMacKey r.serverSeq type payload ++ padding p)) :
    tlsDecryptRecord (tlsLinked P) type bytes r = some
    (payload, { r with serverSeq := r.serverSeq + 1 }) := by
  have hmac : (macOf P r r.serverMacKey r.serverSeq type payload).length = tlsMacKeyLen r :=
    length_macOf _ _ _ _
  have hmacLen := tlsMacKeyLen_cases r
  unfold Fits at hfits
  have hplain : (tlsLinked P).aesDecryptCbc r.serverWriteKey (bytes.take 16) (bytes.drop 16) =
      some (payload ++ macOf P r r.serverMacKey r.serverSeq type payload ++ padding p) := hplain
  have hlast : ((payload ++ macOf P r r.serverMacKey r.serverSeq type payload ++ padding p).getLastD 0).toNat = p := by
    have hpad : padding p = List.replicate p (UInt8.ofNat p) ++ [UInt8.ofNat p] :=
      List.replicate_succ'
    rw [hpad, ← List.append_assoc]
    simp
    omega
  have hbody : (payload ++ macOf P r r.serverMacKey r.serverSeq type payload).length =
      payload.length + tlsMacKeyLen r := by
    rw [List.length_append, hmac]
  have htype : type = 23 ∨ type = 22 ∨ type = 21 := htype
  unfold tlsDecryptRecord
  rw [if_neg (not_not.mpr htype), if_neg (by omega), hplain]
  dsimp only
  rw [hlast, List.length_append, length_padding, if_neg (by omega), Nat.add_sub_cancel,
    List.drop_left, List.take_left, hbody]
  rw [if_neg (by simp [padding]), if_neg (by omega), Nat.add_sub_cancel, List.take_left,
    List.drop_left, if_neg (by omega)]
  exact if_neg (not_not.mpr rfl)

section

variable {record : UInt8 × List UInt8} {n : Nat} {wire bytes : List UInt8}

/-- A sealed record fits into a record of the protocol. -/
theorem length_sealedBytes_le (hkey : SuiteKey s.clientWriteKey) (n : Nat)
    (hfits : Fits s record.2) :
    (sealedBytes P s n record).length ≤ 4112 := by
  have hlength := length_sealedBytes (P := P) hkey n record
  have htext := length_sealedText P s n record
  have hpad := (padLen_spec s record.2).1
  unfold Fits at hfits
  omega

theorem length_sealedWire : (sealedWire P s n record).length = 5 + (sealedBytes P s n record).length := by
  unfold sealedWire tlsWriteUint16
  simp
  omega

/-- The header of a sealed record is read back. -/
theorem tlsFrame_sealedWire (hkey : SuiteKey s.clientWriteKey) (record : UInt8 × List UInt8)
    (hfits : Fits s record.2) :
    tlsRecordLen (sealedWire P s n record) = (sealedBytes P s n record).length ∧
      tlsFrame (sealedWire P s n record) = (record.1, sealedBytes P s n record) := by
  have hlen : tlsRecordLen (sealedWire P s n record) = (sealedBytes P s n record).length := by
    have hsmall := length_sealedBytes_le (P := P) hkey n hfits
    unfold tlsRecordLen tlsReadUint16 sealedWire tlsWriteUint16
    simp
    omega
  refine ⟨hlen, ?_⟩
  unfold tlsFrame
  rw [hlen]
  unfold sealedWire tlsWriteUint16
  simp

/-- The next record that was sent is accepted as it was sent. -/
theorem tlsDecryptWire_sealedWire (h : Mirrored s r) (record : UInt8 × List UInt8)
    (htype : Protectable record.1) (hfits : Fits s record.2) (n : Nat) :
    tlsDecryptWire (tlsLinked P) (sealedWire P s n record) { r with serverSeq := n } =
      some (record, { r with serverSeq := n + 1 }) := by
  obtain ⟨hlen, hframe⟩ := tlsFrame_sealedWire (P := P) (n := n) h.suiteKey record hfits
  obtain ⟨cipher, hbytes, hcipher, -, hdec⟩ := sealedBytes_spec (P := P) h.suiteKey n record
  have hpad := padLen_spec s record.2
  have htext := length_sealedText P s n record
  have hiv := length_ivOf n
  have htake : (sealedBytes P s n record).take 16 = ivOf n := by rw [hbytes, List.take_left' hiv]
  have hdrop : (sealedBytes P s n record).drop 16 = cipher := by rw [hbytes, List.drop_left' hiv]
  have hmacLen : tlsMacKeyLen { r with serverSeq := n } = tlsMacKeyLen s := h.macKeyLen
  have hmac : macOf P { r with serverSeq := n } r.serverMacKey n record.1 record.2 =
      macOf P s s.clientMacKey n record.1 record.2 := h.macOf n record.1 record.2
  have haccept : tlsDecryptRecord (tlsLinked P) record.1 (sealedBytes P s n record) { r with serverSeq := n } =
      some (record.2, { r with serverSeq := n + 1 }) := by
    apply tlsDecryptRecord_of_text htype (p := padLen s record.2) _ hpad.1
    · rw [hbytes, List.length_append, hiv, hcipher, htext, hmacLen]
    · rw [hmacLen]
      exact hpad.2
    · rw [htake, hdrop, hmac, h.key]
      exact hdec
    · unfold Fits
      rw [hmacLen]
      exact hfits
  have htype : record.1 = 23 ∨ record.1 = 22 ∨ record.1 = 21 := htype
  have hactive : ¬ (!({ r with serverSeq := n } : TlsCtx).serverCipherActive) = true := by
    simp [h.receives]
  unfold tlsDecryptWire
  rw [length_sealedWire, hframe, hlen, if_neg (by omega)]
  dsimp only
  rw [if_neg (not_not.mpr htype), if_neg (Nat.lt_irrefl _), if_neg hactive, haccept]
  rfl

/-- What is accepted from the wire has the tag for the number that is due. -/
theorem tlsDecryptWire_some (h : r.serverCipherActive = true) {r' : TlsCtx}
    (haccept : tlsDecryptWire (tlsLinked P) wire r = some (record, r')) :
    (tlsFrame wire).1 = record.1 ∧
      tlsDecryptRecord (tlsLinked P) record.1 (tlsFrame wire).2 r = some (record.2, r') := by
  unfold tlsDecryptWire at haccept
  split at haccept
  · cases haccept
  dsimp only at haccept
  split at haccept
  · cases haccept
  split at haccept
  · cases haccept
  split at haccept
  · next hinactive => simp [h] at hinactive
  obtain ⟨⟨msg, r''⟩, hrecord, heq⟩ := Option.map_eq_some_iff.mp haccept
  obtain ⟨rfl, rfl⟩ := Prod.mk.inj heq
  exact ⟨rfl, hrecord⟩

end

def layer (P : TlsPrimitives) (s r : TlsCtx) : RecordLayer (UInt8 × List UInt8) (List UInt8) where
  protect n record := sealedWire P s n record
  accept n wire := (tlsDecryptWire (tlsLinked P) wire { r with serverSeq := n }).map Prod.fst

/-- Records that are sent one after the other are sealed under their numbers. -/
theorem tlsEncryptRecords_some {maxOutput : Nat} {records : List (UInt8 × List UInt8)}
    {wires : List (List UInt8)} {s' : TlsCtx} (hactive : s.clientCipherActive = true)
    (hkey : SuiteKey s.clientWriteKey)
    (h : tlsEncryptRecords (tlsLinked P) maxOutput records s = some (wires, s')) :
    (∀ record ∈ records, Fits s record.2) ∧ wires = (layer P s r).protectFrom s.clientSeq records ∧
      s' = { s with clientSeq := s.clientSeq + records.length } := by
  induction records generalizing s wires s' with
  | nil =>
    obtain ⟨rfl, rfl⟩ := Prod.mk.inj (Option.some.inj h)
    exact ⟨nofun, rfl, rfl⟩
  | cons record records ih =>
    unfold tlsEncryptRecords at h
    split at h
    · cases h
    next wire s₁ hrecord =>
    obtain ⟨⟨wires', s₂⟩, hrest, heq⟩ := Option.map_eq_some_iff.mp h
    obtain ⟨rfl, rfl⟩ := Prod.mk.inj heq
    obtain ⟨hfits, rfl, rfl⟩ := tlsEncryptRecord_some hactive hkey record hrecord
    obtain ⟨hfits', hwires, hs⟩ := ih (s := { s with clientSeq := s.clientSeq + 1 }) hactive hkey hrest
    refine ⟨List.forall_mem_cons.mpr ⟨hfits, hfits'⟩, congrArg (_ :: ·) hwires, hs.trans ?_⟩
    rw [List.length_cons, Nat.add_comm records.length, ← Nat.add_assoc]

/-- Records that arrive are read one after the other. -/
theorem tlsDecryptRecords_eq (h : r.serverCipherActive = true) (n : Nat)
    (wires : List (List UInt8)) :
    tlsDecryptRecords (tlsLinked P) wires { r with serverSeq := n } =
      ((layer P s r).acceptFrom n wires,
        { r with serverSeq := n + ((layer P s r).acceptFrom n wires).length }) := by
  induction wires generalizing n with
  | nil => rfl
  | cons wire wires ih =>
    have haccept : (layer P s r).accept n wire =
        (tlsDecryptWire (tlsLinked P) wire { r with serverSeq := n }).map Prod.fst := rfl
    unfold tlsDecryptRecords RecordLayer.acceptFrom
    rw [haccept]
    cases hwire : tlsDecryptWire (tlsLinked P) wire { r with serverSeq := n } with
    | none => exact ih n
    | some result =>
      obtain ⟨record, r'⟩ := result
      obtain ⟨-, hrecord⟩ := tlsDecryptWire_some (r := { r with serverSeq := n }) h hwire
      obtain ⟨-, -, rfl, -⟩ := tlsDecryptRecord_some hrecord
      dsimp only [Option.map_some]
      rw [ih, List.length_cons, ← Nat.add_assoc, Nat.add_right_comm]

def DecryptsTo (s : TlsCtx) (wire text : List UInt8) : Prop :=
  tlsAesCbc aesDecryptCbc s.clientWriteKey ((tlsFrame wire).2.take 16) ((tlsFrame wire).2.drop 16) = some text

def Sent (s : TlsCtx) (records : List (UInt8 × List UInt8)) (n : Nat)
    (record : UInt8 × List UInt8) : Prop :=
  ∃ k, n = s.clientSeq + k ∧ records[k]? = some record

def TagsDiffer (P : TlsPrimitives) (s : TlsCtx) (records : List (UInt8 × List UInt8)) : Prop :=
  ∀ n n' record record', Sent s records n record → Sent s records n' record' →
    macOf P s s.clientMacKey n record.1 record.2 = macOf P s s.clientMacKey n' record'.1 record'.2 →
    tlsMacInput n record.1 s.version record.2 = tlsMacInput n' record'.1 s.version record'.2

/-- The keyed hash and the cipher are ideal for what arrives: a tag that verifies has been made by
the sender for the same input, and a ciphertext that is not one of the sender's does not decrypt to
one of its payloads with the tag, unless it goes on from the ciphertext for it. -/
structure Ideal (P : TlsPrimitives) (s : TlsCtx) (records : List (UInt8 × List UInt8)) (wire : List UInt8) : Prop where
  tag : ∀ n payload p, n ≤ s.clientSeq + records.length → p < 256 →
    DecryptsTo s wire (payload ++ macOf P s s.clientMacKey n (tlsFrame wire).1 payload ++ padding p) →
    ∃ n' record, Sent s records n' record ∧
      tlsMacInput n (tlsFrame wire).1 s.version payload = tlsMacInput n' record.1 s.version record.2
  cipher : (∀ n record, Sent s records n record → (tlsFrame wire).2 ≠ sealedBytes P s n record) →
    ∀ n record p, Sent s records n record → p < 256 →
      DecryptsTo s wire (record.2 ++ macOf P s s.clientMacKey n record.1 record.2 ++ padding p) →
      sealedBytes P s n record <+: (tlsFrame wire).2

/-- Text and padding determine both. -/
theorem padding_inj {a b : List UInt8} {p q : Nat} (hp : p < 256) (hq : q < 256)
    (h : a ++ padding p = b ++ padding q) :
    p = q ∧ a = b := by
  have hlast : UInt8.ofNat p = UInt8.ofNat q := by
    unfold padding at h
    rw [List.replicate_succ', List.replicate_succ', ← List.append_assoc, ← List.append_assoc] at h
    exact List.cons.inj (List.append_inj' h rfl).2 |>.1
  have hnat := congrArg UInt8.toNat hlast
  rw [UInt8.toNat_ofNat', UInt8.toNat_ofNat', Nat.mod_eq_of_lt hp, Nat.mod_eq_of_lt hq] at hnat
  obtain rfl := hnat
  exact ⟨rfl, List.append_cancel_right h⟩

/-- A padding that ends in another one is this one. -/
theorem padding_prefix {p q : Nat} (hp : p < 256) (hq : q < 256) (h : padding q <+: padding p) :
    p = q := by
  have hhead : UInt8.ofNat q = UInt8.ofNat p := (List.cons_prefix_cons.mp h).1
  have hnat := congrArg UInt8.toNat hhead
  rw [UInt8.toNat_ofNat', UInt8.toNat_ofNat', Nat.mod_eq_of_lt hp, Nat.mod_eq_of_lt hq] at hnat
  exact hnat.symm

section

variable {records : List (UInt8 × List UInt8)} {record : UInt8 × List UInt8} {n : Nat} {wire : List UInt8}

/-- A wire with the bytes of a sealed record decrypts to its text. -/
theorem decrypts_sealedBytes (hkey : SuiteKey s.clientWriteKey)
    (hwire : (tlsFrame wire).2 = sealedBytes P s n record) :
    DecryptsTo s wire (sealedText P s n record) := by
  obtain ⟨cipher, hbytes, -, -, hdec⟩ := sealedBytes_spec (P := P) hkey n record
  unfold DecryptsTo
  rw [hwire, hbytes, List.take_left' (length_ivOf n), List.drop_left' (length_ivOf n)]
  exact hdec

/-- What goes on from a ciphertext of the sender, and still decrypts to its payload with the tag and
a padding, is that ciphertext. -/
theorem eq_sealedBytes_of_prefix (hkey : SuiteKey s.clientWriteKey)
    (hmultiple : (tlsFrame wire).2.length % 16 = 0) {p : Nat} (hp : p < 256)
    (hdec : DecryptsTo s wire (record.2 ++ macOf P s s.clientMacKey n record.1 record.2 ++
      padding p))
    (hstart' : sealedBytes P s n record <+: (tlsFrame wire).2) :
    (tlsFrame wire).2 = sealedBytes P s n record := by
  obtain ⟨cipher, hbytes, hlength, -, hcipher⟩ := sealedBytes_spec (P := P) hkey n record
  obtain ⟨extra, hextra⟩ := hstart'
  have hpad := padLen_spec s record.2
  have htext := length_sealedText P s n record
  have hiv := length_ivOf n
  have hsealed := length_sealedBytes (P := P) hkey n record
  have htotal := congrArg List.length hextra
  rw [List.length_append] at htotal
  unfold DecryptsTo at hdec
  rw [← hextra, hbytes, List.append_assoc, List.take_left' hiv, List.drop_left' hiv] at hdec
  have hstart := tlsAesCbc_append (by omega) (by rw [List.length_append]; omega) hcipher hdec
  -- the padding that was checked begins with that of the sender
  have hpadding : p = padLen s record.2 := by
    unfold sealedText at hstart
    exact padding_prefix hp (by omega) ((List.prefix_append_right_inj _).mp hstart)
  have hplain := length_tlsAesCbc hdec
  rw [hpadding] at hplain
  change (sealedText P s n record).length = _ at hplain
  rw [List.length_append] at hplain
  have hnil : extra = [] := List.eq_nil_of_length_eq_zero (by omega)
  rw [← hextra, hnil, List.append_nil]

/-- What is accepted when `n` records were accepted is the next one sent. -/
theorem accept_next (h : Mirrored s r) (hcount : s.clientSeq + records.length < 2 ^ 64)
    (hdiffer : TagsDiffer P s records) (hideal : Ideal P s records wire) {k : Nat}
    (hk : k ≤ records.length) (haccept : (layer P s r).accept (s.clientSeq + k) wire = some record) :
    records[k]? = some record ∧ (tlsFrame wire).1 = record.1 ∧
      (tlsFrame wire).2 = sealedBytes P s (s.clientSeq + k) record := by
  obtain ⟨⟨record', r'⟩, hwire, rfl⟩ := Option.map_eq_some_iff.mp haccept
  obtain ⟨htype, hrecord⟩ := tlsDecryptWire_some (r := { r with serverSeq := s.clientSeq + k }) h.receives hwire
  obtain ⟨-, hmultiple, -, p, hp, hplain⟩ := tlsDecryptRecord_some hrecord
  have hmac : macOf P { r with serverSeq := s.clientSeq + k } r.serverMacKey (s.clientSeq + k) record'.1 record'.2 =
      macOf P s s.clientMacKey (s.clientSeq + k) record'.1 record'.2 := h.macOf _ _ _
  have hdec : DecryptsTo s wire
      (record'.2 ++ macOf P s s.clientMacKey (s.clientSeq + k) record'.1 record'.2 ++ padding p) := by
    rw [← hmac]
    unfold DecryptsTo
    rw [← h.key]
    exact hplain
  have hbound {n : Nat} {record : UInt8 × List UInt8} (hsent : Sent s records n record) : n < 2 ^ 64 := by
    obtain ⟨j, rfl, hj⟩ := hsent
    have hlt := (List.getElem?_eq_some_iff.mp hj).1
    omega
  -- the tag verifies, so the record has been sent under this number
  have hsent : Sent s records (s.clientSeq + k) record' := by
    obtain ⟨n, record, hsent, hinput⟩ := hideal.tag (s.clientSeq + k) record'.2 p (by omega) hp (htype ▸ hdec)
    obtain ⟨hn, htype', hpayload⟩ := tlsMacInput_inj (by omega) (hbound hsent) hinput
    rw [htype] at htype'
    rw [hn]
    exact (Prod.ext htype' hpayload : record' = record) ▸ hsent
  have hnext : records[k]? = some record' := by
    obtain ⟨j, hj, hrecord⟩ := hsent
    rwa [Nat.add_left_cancel hj]
  refine ⟨hnext, htype, ?_⟩
  by_cases hown : ∃ n record, Sent s records n record ∧ (tlsFrame wire).2 = sealedBytes P s n record
  · obtain ⟨n, record, hsent', hbytes⟩ := hown
    -- one of the sender's own records: its tag would be that of another one
    have hsame : sealedText P s n record =
        record'.2 ++ macOf P s s.clientMacKey (s.clientSeq + k) record'.1 record'.2 ++ padding p :=
      Option.some.inj ((decrypts_sealedBytes h.suiteKey hbytes).symm.trans hdec)
    obtain ⟨-, hbody⟩ := padding_inj (Nat.lt_trans (padLen_spec s record.2).1 (by decide)) hp hsame
    have htags := (List.append_inj' hbody (by rw [length_macOf, length_macOf])).2
    have hinput := hdiffer _ _ _ _ hsent' hsent htags
    obtain ⟨hn, htype', hpayload⟩ := tlsMacInput_inj (hbound hsent') (hbound hsent) hinput
    rw [hbytes, hn]
    exact congrArg _ (Prod.ext htype' hpayload)
  · have hstart' := hideal.cipher (fun n record hsent' hbytes => hown ⟨n, record, hsent', hbytes⟩) _ _ p hsent hp hdec
    exact eq_sealedBytes_of_prefix h.suiteKey hmultiple hp hdec hstart'

end

/-- What has been encrypted at the one end is decrypted at the other one, record by record, and the
two ends stay in step. Whatever arrives instead, the records that are accepted are the first ones
that were sent, with their types and payloads, as long as the tags and the cipher are ideal for it.
-/
theorem tlsRecords_protected (h : Mirrored s r) {maxOutput : Nat}
    {records : List (UInt8 × List UInt8)} (htypes : ∀ record ∈ records, Protectable record.1)
    {wires : List (List UInt8)} {s' : TlsCtx}
    (hsent : tlsEncryptRecords (tlsLinked P) maxOutput records s = some (wires, s')) :
    (∃ r', tlsDecryptRecords (tlsLinked P) wires r = (wires.zip records, r') ∧ Mirrored s' r') ∧
    (s.clientSeq + records.length < 2 ^ 64 → TagsDiffer P s records →
      ∀ incoming : List (List UInt8),
      (∀ wire ∈ incoming, Ideal P s records wire) →
      ((tlsDecryptRecords (tlsLinked P) incoming r).1.map fun a => (tlsFrame a.1, a.2)) <+:
        (wires.zip records).map fun a => (tlsFrame a.1, a.2)) := by
  obtain ⟨hfits, rfl, rfl⟩ := tlsEncryptRecords_some (r := r) h.sends h.suiteKey hsent
  have hstate : r = { r with serverSeq := s.clientSeq } := by
    rw [← h.number]
  constructor
  · have hall : (layer P s r).acceptFrom s.clientSeq ((layer P s r).protectFrom s.clientSeq records) =
        ((layer P s r).protectFrom s.clientSeq records).zip records := by
      apply RecordLayer.acceptFrom_protectFrom
      intro k record hk
      have hmem := List.mem_of_getElem? hk
      change (tlsDecryptWire _ (sealedWire P s _ record) _).map Prod.fst = _
      rw [tlsDecryptWire_sealedWire h record (htypes record hmem) (hfits record hmem)]
      rfl
    have hrun := tlsDecryptRecords_eq (P := P) (s := s) h.receives s.clientSeq
      ((layer P s r).protectFrom s.clientSeq records)
    rw [← hstate, hall] at hrun
    refine ⟨_, hrun, ⟨h.sends, h.receives, h.key, h.suiteKey, h.macKey, h.suite, h.version, ?_⟩⟩
    simp
  · intro hcount hdiffer incoming hideal
    have hrun := tlsDecryptRecords_eq (P := P) (s := s) h.receives s.clientSeq incoming
    rw [← hstate] at hrun
    rw [hrun]
    apply RecordLayer.acceptFrom_isPrefix tlsFrame
    intro k wire record hk hwire haccept
    obtain ⟨hnext, htype, hbytes⟩ := accept_next h hcount hdiffer (hideal wire hwire) hk haccept
    refine ⟨hnext, ?_⟩
    have hframe := (tlsFrame_sealedWire (P := P) (n := s.clientSeq + k) h.suiteKey record
      (hfits record (List.mem_of_getElem? hnext))).2
    have hsame : tlsFrame wire = (record.1, sealedBytes P s (s.clientSeq + k) record) :=
      Prod.ext htype hbytes
    exact hsame.trans hframe.symm

def sender : TlsCtx :=
  { state := .handshakeDone, clientCipherActive := true, clientWriteKey := List.replicate 16 0,
    clientMacKey := List.replicate 20 0 }

def receiver : TlsCtx :=
  { state := .handshakeDone, serverCipherActive := true, serverWriteKey := List.replicate 16 0,
    serverMacKey := List.replicate 20 0 }

/-- The two ends of the example have the same keys. -/
theorem mirrored_sender : Mirrored sender receiver :=
  ⟨rfl, rfl, rfl, Or.inl rfl, rfl, rfl, rfl, rfl⟩

theorem tlsEncryptRecords_sender (P : TlsPrimitives) (type : UInt8) :
    tlsEncryptRecords (tlsLinked P) 4096 [(type, [1])] sender =
      some ([sealedWire P sender 0 (type, [1])], { sender with clientSeq := 1 }) := by
  have hfits : Fits sender [1] := by
    unfold Fits
    decide
  have hmax : 5 + (sealedBytes P sender 0 (type, [1])).length ≤ 4096 := by
    rw [length_sealedBytes mirrored_sender.suiteKey, length_sealedText]
    have hpad : padLen sender [1] = 10 := by decide
    have hmac : tlsMacKeyLen sender = 20 := by decide
    simp [hpad, hmac]
  unfold tlsEncryptRecords
  rw [tlsEncryptRecord_of_fits mirrored_sender.sends mirrored_sender.suiteKey (type, [1]) hfits hmax]
  rfl

def bare : TlsPrimitives where
  sha1 := Hash.sha1
  sha256 := Hash.sha256
  hmacSha1 := Hash.hmacSha1
  hmacSha256 := Hash.hmacSha256
  prf _ _ _ _ _ := []
  rsaPublicEncrypt _ _ := none
  aesEncryptCbc _ _ _ := none
  aesDecryptCbc _ _ _ := none
  x509ParseCert _ := none

/-- The same byte twice, and the wires that carry it. -/
def twoRecords : List (UInt8 × List UInt8) := [(23, [1]), (23, [1])]

def firstWire : List UInt8 := sealedWire bare sender 0 (23, [1])

def secondWire : List UInt8 := sealedWire bare sender 1 (23, [1])

theorem fits_sender : Fits sender [1] := by
  unfold Fits
  decide

/-- The example sends the same byte twice. -/
theorem tlsEncryptRecords_twoRecords :
    tlsEncryptRecords (tlsLinked bare) 4096 twoRecords sender =
      some ([firstWire, secondWire], { sender with clientSeq := 2 }) := by
  have hmax (s : TlsCtx) (hs : s.clientWriteKey = sender.clientWriteKey) (hlen : tlsMacKeyLen s = 20) (n : Nat) :
      5 + (sealedBytes bare s n (23, [1])).length ≤ 4096 := by
    rw [length_sealedBytes (hs ▸ mirrored_sender.suiteKey), length_sealedText]
    have hpad := (padLen_spec s [1]).1
    simp only [List.length_singleton, hlen]
    omega
  have hsecond := tlsEncryptRecord_of_fits (P := bare) (s := { sender with clientSeq := 1 }) mirrored_sender.sends
    mirrored_sender.suiteKey (23, [1]) fits_sender (hmax _ rfl rfl _)
  unfold twoRecords tlsEncryptRecords
  rw [tlsEncryptRecord_of_fits mirrored_sender.sends mirrored_sender.suiteKey (23, [1]) fits_sender (hmax _ rfl rfl _)]
  dsimp only
  unfold tlsEncryptRecords
  rw [show ({ sender with clientSeq := sender.clientSeq + 1 } : TlsCtx) = { sender with clientSeq := 1 } from rfl, hsecond]
  rfl

def tagOf (n : Nat) : List UInt8 := macOf bare sender sender.clientMacKey n 23 [1]

/-- The hash after the block of the key with the padding `p`. -/
def keyed (p : UInt8) : Hash.HashCtx Hash.Sha1State :=
  Hash.sha1Update Hash.sha1Init (Hash.xorKey (List.replicate 64 p) sender.clientMacKey)

def innerDigest (n : Nat) : List UInt8 :=
  Hash.sha1Final (Hash.sha1Update (keyed 0x36) (tlsMacInput n 23 sender.version [1]))

theorem tagOf_eq (n : Nat) : tagOf n = (Hash.sha1Final (Hash.sha1Update (keyed 0x5C) (innerDigest n))).take 20 := rfl

/-- The tags of the byte under the first three numbers begin differently. -/
theorem headI_tagOf : (tagOf 0).headI = 79 ∧ (tagOf 1).headI = 104 ∧ (tagOf 2).headI = 148 := by
  have hzero : innerDigest 0 = [35, 135, 199, 151, 234, 127, 80, 153, 96, 87, 21, 87, 239, 148, 93, 36, 18, 153, 36, 81] := by
    decide +kernel
  have hone : innerDigest 1 = [243, 177, 251, 211, 174, 69, 148, 6, 34, 75, 147, 51, 248, 170, 27, 120, 233, 3, 114, 107] := by
    decide +kernel
  have htwo : innerDigest 2 = [36, 7, 210, 227, 71, 238, 155, 25, 110, 129, 19, 233, 210, 104, 65, 27, 164, 3, 3, 135] := by
    decide +kernel
  rw [tagOf_eq, tagOf_eq, tagOf_eq, hzero, hone, htwo]
  exact ⟨by decide +kernel, by decide +kernel, by decide +kernel⟩

/-- The tags of the byte under the first three numbers differ. -/
theorem tagOf_inj {n m : Nat} (hn : n < 3) (hm : m < 3) (h : tagOf n = tagOf m) : n = m := by
  obtain ⟨hzero, hone, htwo⟩ := headI_tagOf
  have hhead := congrArg List.headI h
  interval_cases n <;> interval_cases m <;> simp [hzero, hone, htwo] at hhead ⊢

theorem sent_twoRecords {n : Nat} {record : UInt8 × List UInt8}
    (h : Sent sender twoRecords n record) :
    n < 2 ∧ record = (23, [1]) := by
  obtain ⟨k, rfl, hk⟩ := h
  match k with
  | 0 => exact ⟨by decide, (Option.some.inj hk).symm⟩
  | 1 => exact ⟨by decide, (Option.some.inj hk).symm⟩
  | k + 2 => exact nomatch hk

/-- No record of the example has the tag of another one. -/
theorem tagsDiffer_twoRecords : TagsDiffer bare sender twoRecords := by
  intro n n' record record' h h' heq
  obtain ⟨hn, rfl⟩ := sent_twoRecords h
  obtain ⟨hn', rfl⟩ := sent_twoRecords h'
  obtain rfl : n = n' := tagOf_inj (Nat.lt_succ_of_lt hn) (Nat.lt_succ_of_lt hn') heq
  rfl

/-- What the sender has sent decrypts to its own text, under its own number. -/
theorem ideal_sealedWire {n : Nat} (hsent : Sent sender twoRecords n (23, [1])) :
    Ideal bare sender twoRecords (sealedWire bare sender n (23, [1])) := by
  have hframe := (tlsFrame_sealedWire (P := bare) (n := n) mirrored_sender.suiteKey (23, [1]) fits_sender).2
  have hbytes : (tlsFrame (sealedWire bare sender n (23, [1]))).2 = sealedBytes bare sender n (23, [1]) := by rw [hframe]
  refine ⟨fun m payload p hm hp hdec => ?_, fun hnone => absurd hbytes (hnone n _ hsent)⟩
  rw [hframe] at hdec ⊢
  have htext := Option.some.inj (hdec.symm.trans (decrypts_sealedBytes (P := bare) mirrored_sender.suiteKey hbytes))
  have hpad : padLen sender [1] < 256 := (padLen_spec sender [1]).1.trans (by decide)
  obtain ⟨-, hbody⟩ := padding_inj hp hpad htext
  have hlength : (macOf bare sender sender.clientMacKey m 23 payload).length =
      (macOf bare sender sender.clientMacKey n 23 [1]).length := by
    rw [length_macOf, length_macOf]
  obtain ⟨hpayload, hmac⟩ := List.append_inj' hbody hlength
  subst hpayload
  obtain rfl : m = n := tagOf_inj (Nat.lt_succ_of_le hm) (Nat.lt_succ_of_lt (sent_twoRecords hsent).1) hmac
  exact ⟨m, _, hsent, rfl⟩

/-- Both records arrive in order; and where they come in the other order, the first one twice, what
is accepted is a part of what was sent, from its beginning. -/
theorem tlsRecords_protected_sender :
    (∃ r', tlsDecryptRecords (tlsLinked bare) [firstWire, secondWire] receiver =
      ([(firstWire, 23, [1]), (secondWire, 23, [1])], r')) ∧
    ((tlsDecryptRecords (tlsLinked bare) [secondWire, firstWire, firstWire, secondWire] receiver).1.map
      fun a => (tlsFrame a.1, a.2)) <+: [(tlsFrame firstWire, 23, [1]),
        (tlsFrame secondWire, 23, [1])] := by
  have htypes : ∀ record ∈ twoRecords, Protectable record.1 := by
    unfold twoRecords
    simp [Protectable]
  have hfirst : Ideal bare sender twoRecords firstWire := ideal_sealedWire ⟨0, rfl, rfl⟩
  have hsecond : Ideal bare sender twoRecords secondWire := ideal_sealedWire ⟨1, rfl, rfl⟩
  obtain ⟨⟨r', hrun, -⟩, hrest⟩ := tlsRecords_protected mirrored_sender htypes tlsEncryptRecords_twoRecords
  refine ⟨⟨r', hrun⟩, hrest (by decide) tagsDiffer_twoRecords _ ?_⟩
  intro wire hwire
  simp only [List.mem_cons, List.not_mem_nil, or_false] at hwire
  rcases hwire with rfl | rfl | rfl | rfl
  · exact hsecond
  · exact hfirst
  · exact hfirst
  · exact hsecond

/-- After 2^64 records the number starts anew. -/
theorem sealedWire_wraps : sealedWire bare sender (2 ^ 64) (23, [1]) = sealedWire bare sender 0 (23, [1]) := by
  have hiv : ivOf (2 ^ 64) = ivOf 0 := by decide
  have hinput : tlsMacInput (2 ^ 64) 23 sender.version [1] = tlsMacInput 0 23 sender.version [1] := by decide +kernel
  have htext : sealedText bare sender (2 ^ 64) (23, [1]) = sealedText bare sender 0 (23, [1]) := by
    unfold sealedText macOf
    rw [hinput]
  unfold sealedWire sealedBytes
  rw [hiv, htext]

/-- A record of another type is encrypted, but not decrypted; and the first record is accepted once
more after 2^64. -/
theorem not_tlsRecords_protected : (¬ ∀ P s r, Mirrored s r → ∀ maxOutput records wires s',
      tlsEncryptRecords (tlsLinked P) maxOutput records s = some (wires, s') →
      (tlsDecryptRecords (tlsLinked P) wires r).1 = wires.zip records) ∧
    (tlsDecryptWire (tlsLinked bare) (sealedWire bare sender 0 (23, [1])) { receiver with serverSeq := 2 ^ 64 }).isSome := by
  have hfits : Fits sender [1] := by
    unfold Fits
    decide
  constructor
  swap
  · rw [← sealedWire_wraps, tlsDecryptWire_sealedWire mirrored_sender (23, [1]) (Or.inl rfl) hfits]
    rfl
  intro hclaim
  have hrun := hclaim bare _ _ mirrored_sender _ _ _ _ (tlsEncryptRecords_sender bare 20)
  have hnone : tlsDecryptWire (tlsLinked bare) (sealedWire bare sender 0 (20, [1])) receiver =
      none := by
    obtain ⟨-, hframe⟩ := tlsFrame_sealedWire (P := bare) (n := 0) mirrored_sender.suiteKey (20, [1]) hfits
    unfold tlsDecryptWire
    rw [hframe]
    dsimp only
    rw [if_pos (by decide : ¬ ((20 : UInt8) = 23 ∨ (20 : UInt8) = 22 ∨ (20 : UInt8) = 21))]
    split <;> rfl
  unfold tlsDecryptRecords at hrun
  rw [hnone] at hrun
  cases hrun

end Monios.Analysis.TlsRecords
