import Monios.Library.Run
import Monios.Model.Tls

/-!
# What a completed TLS handshake says about the server

The driver of `kernel/net/tls.c` completes a handshake when a Finished message carries the expected
verify data, in whatever state it arrives. It never calls `tls_verify_certificate`, so a completed
handshake says nothing about the server: right after the ClientHello the master secret is still
zero, no cipher is active, and anyone who has seen the ClientHello can compute the expected value.
-/

set_option autoImplicit false

namespace Monios.Analysis.TlsAuthentication

open Monios.Library Monios.Model

variable {ctx : TlsCtx} {data : Nat → UInt8} {len : Nat} {type : UInt8} {inp : TlsInput}

/-- The server is authenticated: its chain has been verified against the trust store,
the first certificate is for the requested name, and the session secret comes from a
key exchange with that certificate's key. -/
structure Authenticated (ctx : TlsCtx) : Prop where
  verified : ctx.certVerified = true
  named : ∃ leaf rest, ctx.certChain = leaf :: rest ∧ leaf.rsaKey = ctx.serverPubkey ∧
    ∃ e ∈ leaf.subject, e.oid = [0x55, 0x04, 0x03] ∧ e.value = ctx.serverName
  keyed : ctx.serverPubkeyReady = true ∧ ctx.masterSecretReady = true

/-- The handshake is done only with an authenticated server, and application data
was only ever sent encrypted, to an authenticated server. -/
def Secure (c : TlsConn) : Prop :=
  (c.ctx.state = .handshakeDone → Authenticated c.ctx) ∧
  ∀ w ∈ c.written, w.1.clientCipherActive = true ∧ Authenticated w.1

section

variable (P : TlsPrimitives)

/-- The handshake payload from `offset` on holds a Finished message that is reached
and carries the verify data expected at that point. -/
def handshakeFinishes (data : Nat → UInt8) (len : Nat) : Nat → Nat → TlsCtx → Bool
  | 0, _, _ => false
  | fuel + 1, offset, ctx =>
    if len ≤ offset then false
    else
      let hsLen := tlsReadUint24 data (offset + 1)
      let body := fun i => data (offset + 4 + i)
      if len < offset + 4 ∨ len < offset + 4 + hsLen then false
      else if data offset = 20 ∧ tlsFinishedExpected P body hsLen ctx then true
      else
        match tlsProcessMessage P (data offset) body hsLen ctx with
        | (false, _) => false
        | (true, ctx) => handshakeFinishes data len fuel (offset + 4 + hsLen) ctx

def recordFinishes (behind data : Nat → UInt8) (ctx : TlsCtx) : Bool :=
  let type := data 0
  let recordLen := tlsReadUint16 data 3
  if ctx.serverCipherActive ∧ type ≠ 20 then
    match tlsDecryptRecord P type (bytesAt data 5 recordLen) ctx with
    | none => false
    | some (msg, ctx) =>
      type == 22 && handshakeFinishes P (bufferOf msg behind) msg.length msg.length 0 ctx
  else type == 22 && handshakeFinishes P (fun i => data (5 + i)) recordLen recordLen 0 ctx

def loopFinishes (inp : TlsInput) : Nat → TlsCtx → Bool
  | 0, _ => false
  | fuel + 1, ctx =>
    let avail := ctx.rxBuffer.length - ctx.rxReadPos
    let data := bufferOf (ctx.rxBuffer.drop ctx.rxReadPos) inp.behind
    let recordLen := tlsReadUint16 data 3
    if avail < 5 ∨ avail < 5 + recordLen then false
    else if recordFinishes P inp.behind data ctx then true
    else
      match tlsProcessRecord P inp.behind data ctx with
      | (false, _) => false
      | (true, ctx) =>
        let ctx := { ctx with rxReadPos := ctx.rxReadPos + (5 + recordLen) }
        if ctx.state = .serverHelloDoneReceived then
          match tlsClientFlight P (inp.sends fuel) ctx with
          | (false, _) => false
          | (true, ctx) => loopFinishes inp fuel ctx
        else loopFinishes inp fuel ctx

def pollFinishes (inp : TlsInput) (ctx : TlsCtx) : Bool :=
  ctx.state ≠ .error && loopFinishes P inp (tlsReceive inp ctx).rxBuffer.length (tlsReceive inp ctx)

def NoFinished (c : TlsConn) : TlsEvent → Prop
  | .poll inp => pollFinishes P inp c.ctx = false
  | .read inp size =>
    size ≠ 0 → tlsTakeApp size c.ctx = none → pollFinishes P inp c.ctx = false
  | .write _ => True
  | .close => True

end

section

variable (P : TlsPrimitives)

theorem tlsProcessServerHello_state (h : ctx.state ≠ .handshakeDone) :
    (tlsProcessServerHello data len ctx).2.state ≠ .handshakeDone := by
  unfold tlsProcessServerHello
  split
  · exact h
  · dsimp only
    split
    · exact h
    · simp

theorem tlsProcessCertificate_state (h : ctx.state ≠ .handshakeDone) :
    (tlsProcessCertificate P data len ctx).2.state ≠ .handshakeDone := by
  unfold tlsProcessCertificate
  split
  · exact h
  · simp

theorem tlsProcessFinished_state
    (hfin : tlsFinishedExpected P data len ctx = false) :
    (tlsProcessFinished P data len ctx).2.state ≠ .handshakeDone := by
  unfold tlsFinishedExpected at hfin
  unfold tlsProcessFinished
  split
  · simp [tlsFail]
  · rename_i hlen
    split
    · simp [tlsFail]
    · rename_i hver
      simp only [not_not] at hlen hver
      simp [hlen, hver] at hfin

theorem tlsProcessMessage_state
    (h : ctx.state ≠ .handshakeDone)
    (hfin : ¬ (type = 20 ∧ tlsFinishedExpected P data len ctx = true)) :
    (tlsProcessMessage P type data len ctx).2.state ≠ .handshakeDone := by
  unfold tlsProcessMessage
  split
  · exact tlsProcessServerHello_state h
  · split
    · exact tlsProcessCertificate_state P h
    · split
      · rw [tlsAppendHandshake_state]
        exact h
      · split
        · simp
        · split
          · rename_i htype
            apply tlsProcessFinished_state
            simpa [htype] using hfin
          · exact h

theorem tlsProcessHandshake_state (fuel : Nat) :
    ∀ (offset : Nat) (ctx : TlsCtx), ctx.state ≠ .handshakeDone →
      handshakeFinishes P data len fuel offset ctx = false →
      (tlsProcessHandshake P data len fuel offset ctx).2.state ≠ .handshakeDone := by
  induction fuel with
  | zero =>
    intro offset ctx h _
    exact h
  | succ fuel ih =>
    intro offset ctx h hfin
    unfold handshakeFinishes at hfin
    unfold tlsProcessHandshake
    dsimp only at hfin ⊢
    split
    · exact h
    · rename_i hoff
      rw [if_neg hoff] at hfin
      split
      · exact h
      · rename_i hlen
        rw [if_neg hlen] at hfin
        split at hfin
        · cases hfin
        · rename_i hmsg
          have hstate := tlsProcessMessage_state P h hmsg
          split
          · rename_i ctx' hp
            rw [hp] at hstate
            exact hstate
          · rename_i ctx' hp
            rw [hp] at hstate hfin
            exact ih _ ctx' hstate hfin

theorem tlsProcessPlainRecord_state
    (h : ctx.state ≠ .handshakeDone)
    (hfin : (type == 22 && handshakeFinishes P data len len 0 ctx) = false) :
    (tlsProcessPlainRecord P type data len ctx).2.state ≠ .handshakeDone := by
  unfold tlsProcessPlainRecord
  split
  · rename_i htype
    apply tlsProcessHandshake_state P len 0 ctx h
    simpa [htype] using hfin
  · split
    · dsimp only
      split
      · simp
      · exact h
    · split
      · dsimp only
        split
        · simp
        · exact h
      · split <;> exact h

theorem tlsDecryptRecord_state {payload msg : List UInt8} {ctx ctx' : TlsCtx}
    (h : tlsDecryptRecord P type payload ctx = some (msg, ctx')) : ctx'.state = ctx.state := by
  unfold tlsDecryptRecord at h
  split at h
  · cases h
  · split at h
    · cases h
    · split at h
      · cases h
      · dsimp only at h
        split at h
        · cases h
        · split at h
          · cases h
          · split at h
            · cases h
            · split at h
              · cases h
              · split at h
                · cases h
                · cases h
                  rfl

theorem tlsProcessRecord_state {behind data : Nat → UInt8}
    (h : ctx.state ≠ .handshakeDone) (hfin : recordFinishes P behind data ctx = false) :
    (tlsProcessRecord P behind data ctx).2.state ≠ .handshakeDone := by
  unfold recordFinishes at hfin
  unfold tlsProcessRecord
  dsimp only at hfin ⊢
  split
  · rename_i hactive
    rw [if_pos hactive] at hfin
    split
    · simp [tlsFail]
    · rename_i msg ctx' hdec
      rw [hdec] at hfin
      apply tlsProcessPlainRecord_state P _ hfin
      rw [tlsDecryptRecord_state P hdec]
      exact h
  · rename_i hactive
    rw [if_neg hactive] at hfin
    exact tlsProcessPlainRecord_state P h hfin

theorem tlsBuildClientKeyExchange_state (ctx : TlsCtx) :
    (tlsBuildClientKeyExchange P ctx).2.state ≠ .handshakeDone := by
  unfold tlsBuildClientKeyExchange
  dsimp only
  split
  · simp [tlsFail]
  · split
    · simp [tlsFail]
    · split
      · simp [tlsFail]
      · split
        · simp [tlsFail]
        · simp

theorem tlsEncryptRecord_state (type : UInt8) (input : List UInt8) (maxOutput : Nat)
    (ctx : TlsCtx) : (tlsEncryptRecord P type input maxOutput ctx).2.state = ctx.state := by
  unfold tlsEncryptRecord
  split
  · rfl
  · split
    · rfl
    · dsimp only
      split
      · rfl
      · split
        · rfl
        · split <;> rfl

theorem tlsBuildFinishedRecord_state (label : String) (ctx : TlsCtx) :
    (tlsBuildFinishedRecord P label ctx).2.state = ctx.state := by
  have hstate := tlsEncryptRecord_state P 22 ([20] ++ tlsWriteUint24 12 ++ tlsFinishedVerify P ctx label) 4096 ctx
  unfold tlsBuildFinishedRecord
  dsimp only
  split
  · rename_i ctx' henc
    rw [henc] at hstate
    exact hstate
  · rename_i r ctx' henc
    rw [henc] at hstate
    rw [tlsAppendHandshake_state]
    exact hstate

theorem tlsClientFlight_state (sends : Fin 3 → Bool) (ctx : TlsCtx) :
    (tlsClientFlight P sends ctx).2.state ≠ .handshakeDone := by
  have hkey := tlsBuildClientKeyExchange_state P ctx
  unfold tlsClientFlight
  split
  · rename_i ctx' hk
    rw [hk] at hkey
    exact hkey
  · rename_i ctx' hk
    rw [hk] at hkey
    split
    · exact hkey
    · have hstate := tlsBuildFinishedRecord_state P "client finished"
        { ctx' with clientCipherActive := true, state := .changeCipherSpecSent }
      split
      · rename_i ctx'' hfin
        rw [hfin] at hstate
        dsimp only at hstate ⊢
        simp [hstate]
      · rename_i r ctx'' hfin
        rw [hfin] at hstate
        dsimp only at hstate
        split
        · simp [hstate]
        · simp

theorem tlsRecordLoop_state (fuel : Nat) :
    ∀ ctx : TlsCtx, ctx.state ≠ .handshakeDone → loopFinishes P inp fuel ctx = false →
      (tlsRecordLoop P inp fuel ctx).2.state ≠ .handshakeDone := by
  induction fuel with
  | zero =>
    intro ctx h _
    exact h
  | succ fuel ih =>
    intro ctx h hfin
    unfold loopFinishes at hfin
    unfold tlsRecordLoop
    dsimp only at hfin ⊢
    split
    · exact h
    · rename_i havail
      rw [if_neg havail] at hfin
      split at hfin
      · cases hfin
      · rename_i hrec
        have hstate := tlsProcessRecord_state P h (by simpa using hrec)
        split
        · rename_i ctx' hp
          rw [hp] at hstate
          exact hstate
        · rename_i ctx' hp
          rw [hp] at hstate hfin
          dsimp only at hfin
          split
          · rename_i hdone
            rw [if_pos hdone] at hfin
            have hflight := tlsClientFlight_state P (inp.sends fuel)
              { ctx' with rxReadPos := ctx'.rxReadPos + (5 + tlsReadUint16
                  (bufferOf (ctx.rxBuffer.drop ctx.rxReadPos) inp.behind) 3) }
            split
            · rename_i ctx'' hf
              rw [hf] at hflight
              exact hflight
            · rename_i ctx'' hf
              rw [hf] at hflight hfin
              exact ih ctx'' hflight hfin
          · rename_i hdone
            rw [if_neg hdone] at hfin
            exact ih _ hstate hfin

theorem tlsPoll_state (h : ctx.state ≠ .handshakeDone)
    (hfin : pollFinishes P inp ctx = false) : (tlsPoll P inp ctx).2.state ≠ .handshakeDone := by
  unfold tlsPoll
  split
  · exact h
  · rename_i herr
    have hloop : loopFinishes P inp (tlsReceive inp ctx).rxBuffer.length (tlsReceive inp ctx) =
        false := by
      unfold pollFinishes at hfin
      simpa [herr] using hfin
    have hstate := tlsRecordLoop_state P _ (tlsReceive inp ctx) h hloop
    unfold tlsProcessRxData
    dsimp only
    split
    · rename_i ctx' hl
      rw [hl] at hstate
      exact hstate
    · rename_i ctx' hl
      rw [hl] at hstate
      exact hstate

theorem tlsTakeApp_state {size : Nat} {ctx ctx' : TlsCtx} {out : List UInt8}
    (h : tlsTakeApp size ctx = some (out, ctx')) : ctx'.state = ctx.state := by
  unfold tlsTakeApp at h
  split at h
  · dsimp only at h
    split at h <;> · cases h; rfl
  · cases h

theorem tlsRead_state {size : Nat} (h : ctx.state ≠ .handshakeDone)
    (hfin : size ≠ 0 → tlsTakeApp size ctx = none → pollFinishes P inp ctx = false) :
    (tlsRead P inp size ctx).2.state ≠ .handshakeDone := by
  unfold tlsRead
  split
  · exact h
  · rename_i hsize
    split
    · rename_i out ctx' happ
      rw [tlsTakeApp_state happ]
      exact h
    · rename_i happ
      have hpoll := tlsPoll_state P h (hfin hsize happ)
      dsimp only
      split
      · rename_i out ctx' happ'
        rw [tlsTakeApp_state happ']
        exact hpoll
      · exact hpoll

theorem tlsWrite_eq_none {data : List UInt8} (h : ctx.state ≠ .handshakeDone) :
    tlsWrite P data ctx = (none, ctx) := by
  unfold tlsWrite
  split
  · rfl
  · have hconn : tlsIsConnected ctx = false := by
      unfold tlsIsConnected
      simpa using h
    simp [hconn]

end

def Pending (c : TlsConn) : Prop := c.ctx.state ≠ .handshakeDone ∧ c.written = []

theorem tlsStep_pending (P : TlsPrimitives) (c : TlsConn) (e : TlsEvent) (c' : TlsConn)
    (hcond : NoFinished P c e) (hpend : Pending c) (h : tlsStep P c e = some c') : Pending c' := by
  obtain ⟨hstate, hwritten⟩ := hpend
  cases e with
  | poll inp =>
    simp only [tlsStep, Option.some.injEq] at h
    subst h
    exact ⟨tlsPoll_state P hstate hcond, hwritten⟩
  | write data =>
    simp only [tlsStep, tlsWrite_eq_none P hstate, Option.some.injEq] at h
    subst h
    exact ⟨hstate, hwritten⟩
  | read inp size =>
    simp only [tlsStep, Option.some.injEq] at h
    subst h
    exact ⟨tlsRead_state P hstate hcond, hwritten⟩
  | close =>
    simp only [tlsStep, Option.some.injEq] at h
    subst h
    exact ⟨by simp, hwritten⟩

def connected (name : List UInt8) : TlsConn := ⟨tlsConnected name, []⟩

/-- In every run of a connection in which no call handles a Finished message with the
expected verify data, every state is secure. -/
theorem secure_of_noFinished (P : TlsPrimitives) (name : List UInt8) (es : List TlsEvent)
    (c : TlsConn) (hrun : RunWhile (tlsStep P) (NoFinished P) (connected name) es c) :
    Secure c := by
  have hstart : Pending (connected name) := by
    refine ⟨?_, rfl⟩
    unfold connected tlsConnected tlsBuildClientHello
    simp
  obtain ⟨hstate, hwritten⟩ := hrun.invariant (tlsStep_pending P) hstart
  refine ⟨fun h => absurd h hstate, ?_⟩
  rw [hwritten]
  intro w hw
  cases hw

def idlePrimitives : TlsPrimitives where
  sha1 := fun _ => []
  sha256 := fun _ => []
  hmacSha1 := fun _ _ => []
  hmacSha256 := fun _ _ => []
  prf := fun _ _ _ n _ => List.replicate n 0
  rsaPublicEncrypt := fun _ _ => none
  aesEncryptCbc := fun _ _ _ => none
  aesDecryptCbc := fun _ _ _ => none
  x509ParseCert := fun _ => none

def serverHelloInput : TlsInput :=
  ⟨[22, 3, 3, 0, 42, 2, 0, 0, 38, 3, 3] ++ List.replicate 32 7 ++ [0, 0, 0x2F, 0], fun _ => 0, fun _ _ => true⟩

def alertInput : TlsInput := ⟨[21, 3, 3, 0, 2, 2, 40], fun _ => 0, fun _ _ => true⟩

def greeted : TlsConn := ⟨(tlsPoll idlePrimitives serverHelloInput (tlsConnected [])).2, []⟩

def alerted : TlsConn := ⟨(tlsPoll idlePrimitives alertInput greeted.ctx).2, []⟩

/-- The server answers the ClientHello, a write is refused, and an alert ends the handshake. -/
theorem secure_of_noFinished_alerted : greeted.ctx.state = .serverHelloReceived ∧ Secure greeted ∧
    alerted.ctx.state = .error ∧ Secure alerted := by
  have hgreeted : RunWhile (tlsStep idlePrimitives) (NoFinished idlePrimitives) (connected []) [.poll serverHelloInput]
      greeted := .cons (by unfold NoFinished; decide +kernel) rfl (.nil _)
  have halerted : RunWhile (tlsStep idlePrimitives) (NoFinished idlePrimitives) (connected [])
      [.poll serverHelloInput, .write [1], .poll alertInput] alerted :=
    .cons (by unfold NoFinished; decide +kernel) rfl
      (.cons trivial rfl (.cons (by unfold NoFinished; decide +kernel) rfl (.nil _)))
  exact ⟨by decide +kernel, secure_of_noFinished idlePrimitives [] _ greeted hgreeted,
    by decide +kernel,
    secure_of_noFinished idlePrimitives [] _ alerted halerted⟩

section

variable (P : TlsPrimitives) (name : List UInt8)

/-- The verify data expected right after the ClientHello: the master secret is still
zero and the transcript is the ClientHello itself. -/
def earlyVerify : List UInt8 := tlsFinishedVerify P (tlsConnected name) "server finished"

def earlyFinished : List UInt8 := [22, 3, 3, 0, 16, 20, 0, 0, 12] ++ earlyVerify P name

def earlyInput : TlsInput := ⟨earlyFinished P name, fun _ => 0, fun _ _ => true⟩

theorem bytesAt_bufferOf_append (pre v : List UInt8) (behind : Nat → UInt8) :
    bytesAt (fun i => bufferOf (pre ++ v) behind (pre.length + i)) 0 v.length = v := by
  apply List.ext_getElem
  · simp [bytesAt]
  · intro i h1 h2
    simp [bytesAt, bufferOf, h2]

def earlyCtx : TlsCtx := { tlsConnected name with rxBuffer := earlyFinished P name }

variable {P} {name}

theorem earlyFinished_processed (hlen : (earlyVerify P name).length = 12) :
    tlsProcessRecord P (fun _ => 0) (bufferOf (earlyFinished P name) fun _ => 0) (earlyCtx P name) =
      (true, { tlsAppendHandshake 20 (earlyVerify P name) (earlyCtx P name) with
        state := .handshakeDone }) := by
  have hbody : bytesAt (fun i => bufferOf (earlyFinished P name) (fun _ => 0) (9 + i)) 0 12 =
      earlyVerify P name := by
    rw [← hlen]
    exact bytesAt_bufferOf_append [22, 3, 3, 0, 16, 20, 0, 0, 12] (earlyVerify P name) _
  have hexp : tlsFinishedVerify P (earlyCtx P name) "server finished" = earlyVerify P name := rfl
  have hmsg : tlsProcessMessage P 20
      (fun i => bufferOf (earlyFinished P name) (fun _ => 0) (9 + i)) 12 (earlyCtx P name) =
        (true, { tlsAppendHandshake 20 (earlyVerify P name) (earlyCtx P name) with
          state := .handshakeDone }) := by
    simp only [tlsProcessMessage, tlsProcessFinished, hbody, hexp, ne_eq, not_true_eq_false,
      if_false, if_true]
    rfl
  have hfun : (fun i => bufferOf (earlyFinished P name) (fun _ => 0) (5 + (0 + 4 + i))) =
      fun i => bufferOf (earlyFinished P name) (fun _ => 0) (9 + i) := by
    funext i
    congr 1
    omega
  have hplain : tlsProcessHandshake P
      (fun i => bufferOf (earlyFinished P name) (fun _ => 0) (5 + i)) 16 16 0 (earlyCtx P name) =
        (true, { tlsAppendHandshake 20 (earlyVerify P name) (earlyCtx P name) with
          state := .handshakeDone }) := by
    have htype : bufferOf (earlyFinished P name) (fun _ => 0) (5 + 0) = 20 := rfl
    have hhs : tlsReadUint24 (fun i => bufferOf (earlyFinished P name) (fun _ => 0) (5 + i)) (0 + 1) =
        12 := by
      unfold tlsReadUint24 bufferOf earlyFinished
      simp
    unfold tlsProcessHandshake
    simp only [hhs, htype, hfun, hmsg]
    unfold tlsProcessHandshake
    simp
  have hrecord : tlsReadUint16 (bufferOf (earlyFinished P name) fun _ => 0) 3 = 16 := by
    unfold tlsReadUint16 bufferOf earlyFinished
    simp
  have htype : bufferOf (earlyFinished P name) (fun _ => 0) 0 = 22 := rfl
  have hinactive : (earlyCtx P name).serverCipherActive = false := rfl
  unfold tlsProcessRecord tlsProcessPlainRecord
  simp only [hrecord, htype, hinactive, hplain]
  simp

theorem earlyFinished_polled (hlen : (earlyVerify P name).length = 12) :
    (tlsPoll P (earlyInput P name) (tlsConnected name)).2 =
      { tlsAppendHandshake 20 (earlyVerify P name) (earlyCtx P name) with
        state := .handshakeDone, rxBuffer := [], rxReadPos := 0 } := by
  have hrec : (earlyFinished P name).length = 21 := by
    simp [earlyFinished, hlen]
  have hreceive : tlsReceive (earlyInput P name) (tlsConnected name) = earlyCtx P name := by
    have htake : (earlyFinished P name).take 4096 = earlyFinished P name :=
      List.take_of_length_le (by omega)
    have htake' : (earlyFinished P name).take 16384 = earlyFinished P name :=
      List.take_of_length_le (by omega)
    have hrx : (tlsConnected name).rxBuffer = [] := rfl
    have hin : (earlyInput P name).received = earlyFinished P name := rfl
    unfold tlsReceive earlyCtx
    rw [hrx, hin, htake, List.length_nil, Nat.sub_zero, htake', List.nil_append]
  have hproc := earlyFinished_processed hlen
  have hrx : (earlyCtx P name).rxBuffer = earlyFinished P name := rfl
  have hpos : (earlyCtx P name).rxReadPos = 0 := rfl
  have hrecord : tlsReadUint16 (bufferOf (earlyFinished P name) fun _ => 0) 3 = 16 := by
    unfold tlsReadUint16 bufferOf earlyFinished
    simp
  have hloop : tlsRecordLoop P (earlyInput P name) 21 (earlyCtx P name) =
      (true, { tlsAppendHandshake 20 (earlyVerify P name) (earlyCtx P name) with
        state := .handshakeDone, rxReadPos := 21 }) := by
    have hbehind : (earlyInput P name).behind = fun _ => 0 := rfl
    unfold tlsRecordLoop
    simp only [hrx, hpos, hrec, hbehind, List.drop_zero, hrecord, hproc]
    unfold tlsRecordLoop
    simp [hpos, hrx, hrec]
  have hidle : (tlsConnected name).state ≠ .error := by
    unfold tlsConnected tlsBuildClientHello
    simp
  unfold tlsPoll tlsProcessRxData
  rw [if_neg hidle, hreceive]
  dsimp only
  rw [hrx, hrec, hloop]
  simp [hrx, hrec]

theorem earlyFinished_run (hlen : (earlyVerify P name).length = 12) (data : List UInt8)
    (hne : data ≠ []) (hfit : data.length ≤ 4091) :
    ∃ c : TlsConn, Run (tlsStep P) (connected name) [.poll (earlyInput P name), .write data] c ∧
      c.ctx.state = .handshakeDone ∧ c.ctx.certVerified = false ∧
      ∃ w, c.written = [w] ∧ w.1.clientCipherActive = false ∧ data <:+ w.2 := by
  have hpoll := earlyFinished_polled hlen
  generalize hctx : (tlsPoll P (earlyInput P name) (tlsConnected name)).2 = ctx at hpoll
  have hstate : ctx.state = .handshakeDone := by rw [hpoll]
  have hplain : ctx.clientCipherActive = false := by
    rw [hpoll]
    simp only [tlsAppendHandshake_clientCipherActive]
    rfl
  have hunverified : ctx.certVerified = false := by
    rw [hpoll]
    simp only [tlsAppendHandshake_certVerified]
    rfl
  have hwrite : tlsWrite P data ctx =
      (some ([23] ++ tlsWriteUint16 ctx.version ++ tlsWriteUint16 data.length ++ data), ctx) := by
    have hconn : tlsIsConnected ctx = true := by
      unfold tlsIsConnected
      rw [hstate]
      rfl
    have hfit' : ¬ 4096 < 5 + data.length := by omega
    unfold tlsWrite tlsEncryptRecord tlsBuildRecord
    simp [hne, hconn, hplain, hfit']
  have hfirst : tlsStep P (connected name) (.poll (earlyInput P name)) = some ⟨ctx, []⟩ := by
    simp only [tlsStep, connected, hctx]
  refine ⟨⟨ctx, [(ctx, [23] ++ tlsWriteUint16 ctx.version ++ tlsWriteUint16 data.length ++ data)]⟩,
    ?_, hstate, hunverified, _, rfl, hplain, ?_⟩
  · refine .cons hfirst (.cons ?_ (.nil _))
    simp only [tlsStep, hwrite, List.nil_append]
  · exact List.suffix_append _ _

end

/-- Whatever the primitives and the server name, a connection is not secure in every
state of every run: the early Finished message completes its handshake. -/
theorem not_secure : ¬ ∃ (P : TlsPrimitives) (name : List UInt8),
        (∀ secret label seed n sha256, (P.prf secret label seed n sha256).length = n) ∧
        ∀ (es : List TlsEvent) (c : TlsConn), Run (tlsStep P) (connected name) es c → Secure c := by
  rintro ⟨P, name, hprf, hall⟩
  have hlen : (earlyVerify P name).length = 12 := by
    unfold earlyVerify tlsFinishedVerify
    split <;> exact hprf _ _ _ _ _
  obtain ⟨c, hrun, hdone, hunverified, -⟩ := earlyFinished_run hlen [0x47] (by simp) (by simp)
  have hverified := ((hall _ c hrun).1 hdone).verified
  rw [hunverified] at hverified
  cases hverified

end Monios.Analysis.TlsAuthentication
