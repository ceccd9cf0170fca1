import Monios.Model.Tls

/-!
# Reads of the handshake handlers

The ranges of a message that `tls_process_server_hello` and `tls_process_certificate` read, against
its length, and what an error leaves of the negotiated parameters.  `x509_parse_cert` copies all the
bytes that it is given, unless it refuses their number.  The handlers depend on no byte outside the
ranges.
-/

set_option autoImplicit false

namespace Monios.Analysis.HandshakeBounds

open Monios.Model

variable {data' : Nat → UInt8} {limit fuel offset : Nat} {certs : List Cert}

def serverHelloReads (data : Nat → UInt8) (len : Nat) : List (Nat × Nat) :=
  if len < 38 then []
  else
    let sessionIdLen := (data 34).toNat
    [(0, 2), (2, 32), (34, 1)] ++
      if 32 < sessionIdLen then [] else [(35, sessionIdLen), (35 + sessionIdLen, 2), (0, len)]

/-- What `x509_parse_cert` reads of a certificate of `certLen` bytes at `start`. -/
def certReads (start certLen : Nat) : List (Nat × Nat) :=
  if certLen = 0 ∨ x509MaxCertSize < certLen then [] else [(start, certLen)]

def certificateLoopReads (P : TlsPrimitives) (data : Nat → UInt8) (limit : Nat) :
    Nat → Nat → List Cert → List (Nat × Nat)
  | 0, _, _ => []
  | fuel + 1, offset, certs =>
    if limit ≤ offset ∨ x509MaxChainDepth ≤ certs.length ∨ limit < offset + 3 then []
    else
      let certLen := tlsReadUint24 data offset
      if limit < offset + 3 + certLen then [(offset, 3)]
      else
        let certs := match P.parseCert (bytesAt data (offset + 3) certLen) with
          | some cert => certs ++ [cert]
          | none => certs
        (offset, 3) :: certReads (offset + 3) certLen ++ certificateLoopReads P data limit fuel (offset + 3 + certLen) certs

def certificateReads (P : TlsPrimitives) (data : Nat → UInt8) (len : Nat) : List (Nat × Nat) :=
  if len < 3 then []
  else
    let limit := 3 + tlsReadUint24 data 0
    (0, 3) :: certificateLoopReads P data limit limit 3 [] ++ [(0, len)]

def handshakeReads (P : TlsPrimitives) (data : Nat → UInt8) (len : Nat) :
    Nat → Nat → TlsCtx → List (Nat × Nat)
  | 0, _, _ => []
  | fuel + 1, offset, ctx =>
    if len ≤ offset ∨ len < offset + 4 then []
    else
      let hsLen := tlsReadUint24 data (offset + 1)
      if len < offset + 4 + hsLen then [(offset, 4)]
      else
        [(offset, 4), (offset + 4, hsLen)] ++
          match tlsProcessMessage P (data offset) (fun i => data (offset + 4 + i)) hsLen ctx with
          | (false, _) => []
          | (true, ctx) => handshakeReads P data len fuel (offset + 4 + hsLen) ctx

def negotiated (ctx : TlsCtx) :
    (Nat × List UInt8 × List UInt8 × Nat) × (List Cert × RsaPubkey × Bool) :=
  ((ctx.version, ctx.serverRandom, ctx.sessionId, ctx.cipherSuite), (ctx.certChain, ctx.serverPubkey, ctx.serverPubkeyReady))

def SameIn (reads : List (Nat × Nat)) (data data' : Nat → UInt8) : Prop :=
  ∀ r ∈ reads, bytesAt data' r.1 r.2 = bytesAt data r.1 r.2

/-- The handlers end and read inside the message, and an error leaves the negotiated parameters as
they were. -/
structure StaysInside (P : TlsPrimitives) (data : Nat → UInt8) (len : Nat) (ctx : TlsCtx) : Prop where
  hello : ∀ r ∈ serverHelloReads data len, r.1 + r.2 ≤ len
  helloError : (tlsProcessServerHello data len ctx).1 = false →
    negotiated (tlsProcessServerHello data len ctx).2 = negotiated ctx
  certificate : ∀ r ∈ certificateReads P data len, r.1 + r.2 ≤ len
  certificateError : (tlsProcessCertificate P data len ctx).1 = false →
    negotiated (tlsProcessCertificate P data len ctx).2 = negotiated ctx
  framing : ∀ fuel offset, ∀ r ∈ handshakeReads P data len fuel offset ctx, r.1 + r.2 ≤ len
  helloCovered : ∀ data', SameIn (serverHelloReads data len) data data' →
    tlsProcessServerHello data' len ctx = tlsProcessServerHello data len ctx
  certificateCovered : ∀ data', SameIn (certificateReads P data len) data data' →
    tlsProcessCertificate P data' len ctx = tlsProcessCertificate P data len ctx
  certificateEnds : ∀ rounds, tlsCertificateLoop P data (3 + tlsReadUint24 data 0) (3 + tlsReadUint24 data 0 + rounds) 3 [] =
    tlsCertificateLoop P data (3 + tlsReadUint24 data 0) (3 + tlsReadUint24 data 0) 3 []
  framingEnds : ∀ rounds, tlsProcessHandshake P data len (len + rounds) 0 ctx = tlsProcessHandshake P data len len 0 ctx

/-- The walk over a list of certificates that is longer than the message stops in the message: the
chain is full, or the next certificate is longer than what the list has left.  A certificate whose
length `x509_parse_cert` refuses is passed over unread. -/
def WalkStops (P : TlsPrimitives) (data : Nat → UInt8) (len limit : Nat) :
    Nat → Nat → List Cert → Prop
  | 0, _, _ => True
  | fuel + 1, offset, certs =>
    x509MaxChainDepth ≤ certs.length ∨ limit < offset + 3 ∨
      offset + 3 ≤ len ∧ (limit < offset + 3 + tlsReadUint24 data offset ∨
        (tlsReadUint24 data offset = 0 ∨ x509MaxCertSize < tlsReadUint24 data offset ∨
          offset + 3 + tlsReadUint24 data offset ≤ len) ∧
          WalkStops P data len limit fuel (offset + 3 + tlsReadUint24 data offset)
            (match P.parseCert (bytesAt data (offset + 3) (tlsReadUint24 data offset)) with
              | some cert => certs ++ [cert]
              | none => certs))

/-- A hello that is refused for its length, one whose session id and cipher suite are in the
message, or one that is refused for its session id and states the version and the random number of
the context. -/
def HelloFits (data : Nat → UInt8) (len : Nat) (ctx : TlsCtx) : Prop :=
  len < 38 ∨ (data 34).toNat ≤ 32 ∧ 37 + (data 34).toNat ≤ len ∨
    32 < (data 34).toNat ∧ tlsReadUint16 data 0 = ctx.version ∧ bytesAt data 2 32 = ctx.serverRandom

def CertificatesFit (P : TlsPrimitives) (data : Nat → UInt8) (len : Nat) : Prop :=
  len < 3 ∨ 3 + tlsReadUint24 data 0 ≤ len ∨
    WalkStops P data len (3 + tlsReadUint24 data 0) (3 + tlsReadUint24 data 0) 3 []

section

variable {P : TlsPrimitives} {data : Nat → UInt8} {len : Nat} {ctx : TlsCtx}

theorem hello_iff : ((∀ r ∈ serverHelloReads data len, r.1 + r.2 ≤ len) ∧
    ((tlsProcessServerHello data len ctx).1 = false →
    negotiated (tlsProcessServerHello data len ctx).2 = negotiated ctx)) ↔
      HelloFits data len ctx := by
  unfold serverHelloReads tlsProcessServerHello HelloFits
  by_cases hlen : len < 38
  · simp [hlen]
  by_cases hsid : 32 < (data 34).toNat
  · have hnot : ¬ (data 34).toNat ≤ 32 := by omega
    simp [hlen, hsid, hnot, negotiated]
    omega
  · have hle : (data 34).toNat ≤ 32 := by omega
    simp [hlen, hsid, hle]
    omega

theorem certReads_inside {start n : Nat} : (∀ r ∈ certReads start n, r.1 + r.2 ≤ len) ↔
    n = 0 ∨ x509MaxCertSize < n ∨ start + n ≤ len := by
  unfold certReads
  split
  · next h => exact iff_of_true (by simp) (h.imp_right .inl)
  · next h => simp [not_or.mp h]

theorem certificateLoopReads_of_le (h : limit ≤ len) :
    ∀ r ∈ certificateLoopReads P data limit fuel offset certs, r.1 + r.2 ≤ len := by
  induction fuel generalizing offset certs with
  | zero => simp [certificateLoopReads]
  | succ fuel ih =>
    unfold certificateLoopReads
    split
    · simp
    · dsimp only
      split
      · intro r hr
        obtain rfl := List.mem_singleton.mp hr
        dsimp only
        omega
      · intro r hr
        rcases List.mem_append.mp hr with hr | hr
        · rcases List.mem_cons.mp hr with rfl | hr
          · dsimp only
            omega
          · exact certReads_inside.mpr (.inr (.inr (by omega))) r hr
        · exact ih r hr

theorem certificateLoopReads_iff :
    (∀ r ∈ certificateLoopReads P data limit fuel offset certs, r.1 + r.2 ≤ len) ↔
      WalkStops P data len limit fuel offset certs := by
  induction fuel generalizing offset certs with
  | zero => simp [certificateLoopReads, WalkStops]
  | succ fuel ih =>
    unfold certificateLoopReads WalkStops
    by_cases hstop : limit ≤ offset ∨ x509MaxChainDepth ≤ certs.length ∨ limit < offset + 3
    · rw [if_pos hstop]
      exact iff_of_true (by simp) (by omega)
    · rw [if_neg hstop]
      push Not at hstop
      obtain ⟨-, hdepth, hlimit⟩ := hstop
      by_cases hlong : limit < offset + 3 + tlsReadUint24 data offset
      · simp only [if_pos hlong]
        simp [Nat.not_le.mpr hdepth, Nat.not_lt.mpr hlimit, hlong]
      · have hdepth := Nat.not_le.mpr hdepth
        have hlimit := Nat.not_lt.mpr hlimit
        simp only [if_neg hlong]
        -- the two walks match on one and the same answer of the parser
        generalize P.parseCert (bytesAt data (offset + 3) (tlsReadUint24 data offset)) = parsed
        cases parsed <;> dsimp only <;>
          rw [List.cons_append, List.forall_mem_cons, List.forall_mem_append, certReads_inside, ih,
            or_iff_right hdepth,
            or_iff_right hlimit, or_iff_right hlong]

theorem certificate_iff : ((∀ r ∈ certificateReads P data len, r.1 + r.2 ≤ len) ∧
    ((tlsProcessCertificate P data len ctx).1 = false →
      negotiated (tlsProcessCertificate P data len ctx).2 = negotiated ctx)) ↔
      CertificatesFit P data len := by
  have herror : (tlsProcessCertificate P data len ctx).1 = false →
      negotiated (tlsProcessCertificate P data len ctx).2 = negotiated ctx := by
    unfold tlsProcessCertificate
    split
    · exact fun _ => rfl
    · nofun
  rw [and_iff_left herror]
  unfold certificateReads CertificatesFit
  by_cases hlen : len < 3
  · simp [hlen]
  · rw [if_neg hlen]
    simp only [List.forall_mem_append, List.forall_mem_cons, List.not_mem_nil, false_imp_iff,
      forall_const, and_true]
    rcases Nat.lt_or_ge len (3 + tlsReadUint24 data 0) with hlt | hle
    · rw [certificateLoopReads_iff]
      constructor
      · exact fun h => .inr (.inr h.1.2)
      · exact fun h => ⟨⟨by omega, (h.resolve_left hlen).resolve_left (by omega)⟩, by omega⟩
    · exact iff_of_true ⟨⟨by omega, certificateLoopReads_of_le hle⟩, by omega⟩ (.inr (.inl hle))

theorem framing_inside (fuel offset : Nat) :
    ∀ r ∈ handshakeReads P data len fuel offset ctx, r.1 + r.2 ≤ len := by
  induction fuel generalizing offset ctx with
  | zero => simp [handshakeReads]
  | succ fuel ih =>
    unfold handshakeReads
    split
    · simp
    · dsimp only
      split
      · intro r hr
        obtain rfl := List.mem_singleton.mp hr
        dsimp only
        omega
      · intro r hr
        rcases List.mem_append.mp hr with hr | hr
        · simp only [List.mem_cons, List.not_mem_nil, or_false] at hr
          rcases hr with rfl | rfl <;> dsimp only <;> omega
        · split at hr
          · cases hr
          · exact ih _ r hr

theorem tlsReadUint16_same {off : Nat} (h : bytesAt data' off 2 = bytesAt data off 2) :
    tlsReadUint16 data' off = tlsReadUint16 data off := by
  simp [bytesAt, List.range_succ] at h
  simp [tlsReadUint16, h]

theorem tlsReadUint24_same {off : Nat} (h : bytesAt data' off 3 = bytesAt data off 3) :
    tlsReadUint24 data' off = tlsReadUint24 data off := by
  simp [bytesAt, List.range_succ] at h
  simp [tlsReadUint24, h]

theorem serverHello_covered (h : SameIn (serverHelloReads data len) data data') :
    tlsProcessServerHello data' len ctx = tlsProcessServerHello data len ctx := by
  unfold SameIn serverHelloReads at h
  unfold tlsProcessServerHello
  split
  · rfl
  · rename_i hlen
    rw [if_neg hlen] at h
    have hversion := tlsReadUint16_same (h (0, 2) (by simp))
    have hrandom : bytesAt data' 2 32 = bytesAt data 2 32 := h (2, 32) (by simp)
    have hsid : data' 34 = data 34 := List.singleton_inj.mp (h (34, 1) (by simp))
    rw [hversion, hrandom, hsid]
    dsimp only
    by_cases hlong : 32 < (data 34).toNat
    · rw [if_pos hlong, if_pos hlong]
    · rw [if_neg hlong, if_neg hlong]
      dsimp only at h
      rw [if_neg hlong] at h
      have hid : bytesAt data' 35 (data 34).toNat = bytesAt data 35 (data 34).toNat :=
        h (35, (data 34).toNat) (by simp)
      have hsuite := tlsReadUint16_same (h (35 + (data 34).toNat, 2) (by simp))
      have hall : bytesAt data' 0 len = bytesAt data 0 len := h (0, len) (by simp)
      rw [hid, hsuite, hall]

theorem parseCert_covered {start n : Nat} (h : SameIn (certReads start n) data data') :
    P.parseCert (bytesAt data' start n) = P.parseCert (bytesAt data start n) := by
  have hlength (d : Nat → UInt8) : (bytesAt d start n).length = n := by simp [bytesAt]
  unfold TlsPrimitives.parseCert
  rw [hlength, hlength]
  unfold SameIn certReads at h
  split
  · rfl
  · next hsize =>
    rw [if_neg hsize] at h
    rw [h (start, n) List.mem_cons_self]

theorem certificateLoop_covered
    (h : SameIn (certificateLoopReads P data limit fuel offset certs) data data') :
    tlsCertificateLoop P data' limit fuel offset certs =
      tlsCertificateLoop P data limit fuel offset certs := by
  induction fuel generalizing offset certs with
  | zero => rfl
  | succ fuel ih =>
    unfold certificateLoopReads at h
    unfold tlsCertificateLoop
    by_cases hstop : limit ≤ offset ∨ x509MaxChainDepth ≤ certs.length ∨ limit < offset + 3
    · rw [if_pos hstop, if_pos hstop]
    · rw [if_neg hstop] at h
      rw [if_neg hstop, if_neg hstop]
      by_cases hlong : limit < offset + 3 + tlsReadUint24 data offset
      · simp only [if_pos hlong] at h
        simp only [tlsReadUint24_same (h (offset, 3) List.mem_cons_self), if_pos hlong]
      · simp only [if_neg hlong] at h
        obtain ⟨hnow, hnext⟩ := List.forall_mem_append.mp h
        obtain ⟨hsize, hcert⟩ := List.forall_mem_cons.mp hnow
        simp only [tlsReadUint24_same hsize, if_neg hlong, parseCert_covered hcert]
        exact ih hnext

theorem certificate_covered (h : SameIn (certificateReads P data len) data data') :
    tlsProcessCertificate P data' len ctx = tlsProcessCertificate P data len ctx := by
  unfold SameIn certificateReads at h
  by_cases hlen : len < 3
  · unfold tlsProcessCertificate
    rw [if_pos hlen, if_pos hlen]
  · rw [if_neg hlen] at h
    obtain ⟨hloop, hall⟩ := List.forall_mem_append.mp h
    obtain ⟨hcount, hloop⟩ := List.forall_mem_cons.mp hloop
    have hall : bytesAt data' 0 len = bytesAt data 0 len := hall (0, len) (by simp)
    have hlimit : tlsReadUint24 data' 0 = tlsReadUint24 data 0 := tlsReadUint24_same hcount
    have hcerts : tlsCertificateLoop P data' (3 + tlsReadUint24 data 0) (3 + tlsReadUint24 data 0) 3 [] =
        tlsCertificateLoop P data (3 + tlsReadUint24 data 0) (3 + tlsReadUint24 data 0) 3 [] := certificateLoop_covered hloop
    unfold tlsProcessCertificate
    rw [if_neg hlen, if_neg hlen, hlimit, hall]
    simp only [hcerts]

theorem certificateLoop_ends (rounds : Nat) (h : limit ≤ offset + fuel) :
    tlsCertificateLoop P data limit (fuel + rounds) offset certs =
      tlsCertificateLoop P data limit fuel offset certs := by
  induction fuel generalizing offset certs with
  | zero =>
    cases rounds with
    | zero => rfl
    | succ rounds =>
      unfold tlsCertificateLoop
      exact if_pos (.inl h)
  | succ fuel ih =>
    rw [Nat.succ_add]
    unfold tlsCertificateLoop
    split
    · rfl
    · dsimp only
      split
      · rfl
      · exact ih (by omega)

theorem processHandshake_ends {fuel offset : Nat} (rounds : Nat) (h : len ≤ offset + fuel) :
    tlsProcessHandshake P data len (fuel + rounds) offset ctx =
      tlsProcessHandshake P data len fuel offset ctx := by
  induction fuel generalizing offset ctx with
  | zero =>
    cases rounds with
    | zero => rfl
    | succ rounds =>
      unfold tlsProcessHandshake
      exact if_pos h
  | succ fuel ih =>
    rw [Nat.succ_add]
    unfold tlsProcessHandshake
    split
    · rfl
    · dsimp only
      split
      · rfl
      · split
        · rfl
        · exact ih (by omega)

end

/-- The handlers stay inside exactly those messages whose inner lengths fit. -/
theorem staysInside_iff (P : TlsPrimitives) (data : Nat → UInt8) (len : Nat) (ctx : TlsCtx) :
    StaysInside P data len ctx ↔ HelloFits data len ctx ∧ CertificatesFit P data len := by
  rw [← hello_iff, ← @certificate_iff P data len ctx]
  exact ⟨fun h => ⟨⟨h.hello, h.helloError⟩, h.certificate, h.certificateError⟩,
    fun h => ⟨h.1.1, h.1.2, h.2.1, h.2.2, framing_inside, fun _ => serverHello_covered, fun _ => certificate_covered,
      fun rounds => certificateLoop_ends rounds (by omega), fun rounds => processHandshake_ends rounds (by omega)⟩⟩

/-- A hello of 38 bytes that states a session id of 32 bytes is read up to its 69th byte. -/
theorem not_staysInside_shortHello :
    ¬ ∀ P : TlsPrimitives, StaysInside P (fun i => if i = 34 then 32 else 0) 38 {} := by
  intro h
  let idle : TlsPrimitives := ⟨fun _ => [], fun _ => [], fun _ _ => [], fun _ _ => [], fun _ _ _ _ _ => [], fun _ _ => none,
    fun _ _ _ => none, fun _ _ _ => none, fun _ => none⟩
  have hread := (h idle).hello (67, 2) (by decide)
  exact absurd hread (by decide)

end Monios.Analysis.HandshakeBounds
