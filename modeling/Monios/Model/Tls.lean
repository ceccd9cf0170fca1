import Monios.Model.X509
import Monios.Model.Aes
import Monios.Model.Hash

/-!
# The TLS client

The connection context, the record layer, the handshake handlers and the driver
of `kernel/net/tls.c`.  The cipher, the hashes, the PRF, the RSA encryption and the
certificate parser are parameters (`TlsPrimitives`).

The handlers of the source get a pointer and a length and do not always stay
inside the message, so a buffer is a function `Nat → UInt8` here: the bytes from
the pointer on, whatever lies behind the message included.  Every call that
receives from the network takes those bytes as an argument.
-/

set_option autoImplicit false

namespace Monios.Model

/-- `tls_state_t` -/
inductive TlsState
  | init | clientHelloSent | serverHelloReceived | certificateReceived
  | serverHelloDoneReceived | clientKeyExchangeSent | changeCipherSpecSent | finishedSent
  | changeCipherSpecReceived | finishedReceived | handshakeDone | error
  deriving DecidableEq, Repr

structure TlsPrimitives where
  sha1 : List UInt8 → List UInt8
  sha256 : List UInt8 → List UInt8
  hmacSha1 : List UInt8 → List UInt8 → List UInt8
  hmacSha256 : List UInt8 → List UInt8 → List UInt8
  /-- `tls_prf`: secret, label, seed, output length, SHA-256 or SHA-1 -/
  prf : List UInt8 → String → List UInt8 → Nat → Bool → List UInt8
  rsaPublicEncrypt : RsaPubkey → List UInt8 → Option (List UInt8)
  /-- `aes_encrypt_cbc` and `aes_decrypt_cbc`: key, initialisation vector, data -/
  aesEncryptCbc : List UInt8 → List UInt8 → List UInt8 → Option (List UInt8)
  aesDecryptCbc : List UInt8 → List UInt8 → List UInt8 → Option (List UInt8)
  x509ParseCert : List UInt8 → Option Cert

def tlsVersion12 : Nat := 0x0303

/-- `TLS_RSA_WITH_AES_128_CBC_SHA` and its three siblings. -/
def tlsRsaWithAes128CbcSha : Nat := 0x002F

def tlsRsaWithAes256CbcSha : Nat := 0x0035

def tlsRsaWithAes128CbcSha256 : Nat := 0x003C

def tlsRsaWithAes256CbcSha256 : Nat := 0x003D

/-- `tls_ctx_t`; the defaults are those of `tls_ctx_init`.  A buffer and its length
field are one list. -/
structure TlsCtx where
  state : TlsState := .init
  version : Nat := tlsVersion12
  clientRandom : List UInt8 := List.replicate 32 0
  serverRandom : List UInt8 := List.replicate 32 0
  sessionId : List UInt8 := []
  cipherSuite : Nat := tlsRsaWithAes128CbcSha
  masterSecret : List UInt8 := List.replicate 48 0
  masterSecretReady : Bool := false
  clientCipherActive : Bool := false
  serverCipherActive : Bool := false
  clientWriteKey : List UInt8 := []
  serverWriteKey : List UInt8 := []
  clientMacKey : List UInt8 := []
  serverMacKey : List UInt8 := []
  clientIv : List UInt8 := []
  serverIv : List UInt8 := []
  clientSeq : Nat := 0
  serverSeq : Nat := 0
  certChain : List Cert := []
  certVerified : Bool := false
  serverPubkey : RsaPubkey := ⟨0, 0, 0⟩
  serverPubkeyReady : Bool := false
  handshakeMessages : List UInt8 := []
  rxBuffer : List UInt8 := []
  rxReadPos : Nat := 0
  appBuffer : List UInt8 := []
  appReadPos : Nat := 0
  errorMsg : String := ""
  alertLevel : UInt8 := 0
  alertDescription : UInt8 := 0
  serverName : List UInt8 := []

/-! ## Bytes -/

/-- The `n` bytes at `off`. -/
def bytesAt (data : Nat → UInt8) (off n : Nat) : List UInt8 :=
  (List.range n).map fun i => data (off + i)

def tlsReadUint16 (data : Nat → UInt8) (off : Nat) : Nat :=
  (data off).toNat * 256 + (data (off + 1)).toNat

def tlsReadUint24 (data : Nat → UInt8) (off : Nat) : Nat :=
  (data off).toNat * 65536 + (data (off + 1)).toNat * 256 + (data (off + 2)).toNat

def tlsWriteUint16 (v : Nat) : List UInt8 := [UInt8.ofNat (v / 256), UInt8.ofNat v]

def tlsWriteUint24 (v : Nat) : List UInt8 :=
  [UInt8.ofNat (v / 65536), UInt8.ofNat (v / 256), UInt8.ofNat v]

/-! ## Setting up -/

/-- `tls_set_server_name`: at most 255 bytes are kept. -/
def tlsSetServerName (name : List UInt8) (ctx : TlsCtx) : TlsCtx :=
  { ctx with serverName := name.take 255 }

def tlsGenerateRandom : List UInt8 := (List.range 32).map fun i => UInt8.ofNat (i * 0x5F + 0x3C)

def tlsServerNameExtension (name : List UInt8) : List UInt8 :=
  if name = [] then []
  else
    tlsWriteUint16 0 ++ tlsWriteUint16 (name.length + 5) ++ tlsWriteUint16 (name.length + 3) ++
      [0] ++ tlsWriteUint16 name.length ++ name

def tlsClientHelloBody (ctx : TlsCtx) : List UInt8 :=
  let ext := tlsServerNameExtension ctx.serverName
  tlsWriteUint16 ctx.version ++ tlsGenerateRandom ++ [0] ++ tlsWriteUint16 8 ++ tlsWriteUint16 tlsRsaWithAes128CbcSha ++
    tlsWriteUint16 tlsRsaWithAes128CbcSha256 ++ tlsWriteUint16 tlsRsaWithAes256CbcSha ++
    tlsWriteUint16 tlsRsaWithAes256CbcSha256 ++ [1, 0] ++ tlsWriteUint16 ext.length ++ ext

def tlsBuildClientHello (ctx : TlsCtx) : TlsCtx :=
  let body := tlsClientHelloBody ctx
  { ctx with
    clientRandom := tlsGenerateRandom
    handshakeMessages := [1] ++ tlsWriteUint24 body.length ++ body
    state := .clientHelloSent }

/-- The context after `tls_create`, `tls_set_server_name` and a successful
`tls_connect`. -/
def tlsConnected (name : List UInt8) : TlsCtx :=
  tlsBuildClientHello (tlsSetServerName name {})

/-! ## Cipher suites and the transcript -/

def tlsCipherUsesSha256 (suite : Nat) : Bool :=
  suite == tlsRsaWithAes128CbcSha256 || suite == tlsRsaWithAes256CbcSha256

def tlsPrfUsesSha256 (ctx : TlsCtx) : Bool :=
  decide (tlsVersion12 ≤ ctx.version) || tlsCipherUsesSha256 ctx.cipherSuite

def tlsMacKeyLen (ctx : TlsCtx) : Nat := if tlsCipherUsesSha256 ctx.cipherSuite then 32 else 20

def tlsEncKeyLen (ctx : TlsCtx) : Nat :=
  if ctx.cipherSuite = tlsRsaWithAes256CbcSha ∨ ctx.cipherSuite = tlsRsaWithAes256CbcSha256 then 32
  else 16

/-- `tls_append_handshake`: a message that does not fit in the 4096-byte transcript
is left out of it. -/
def tlsAppendHandshake (type : UInt8) (body : List UInt8) (ctx : TlsCtx) : TlsCtx :=
  if 4096 < ctx.handshakeMessages.length + 4 + body.length then ctx
  else
    { ctx with
      handshakeMessages := ctx.handshakeMessages ++ [type] ++ tlsWriteUint24 body.length ++ body }

section

variable (type : UInt8) (body : List UInt8) (ctx : TlsCtx)

@[simp] theorem tlsAppendHandshake_state :
    (tlsAppendHandshake type body ctx).state = ctx.state := by
  unfold tlsAppendHandshake
  split <;> rfl

@[simp] theorem tlsAppendHandshake_certVerified :
    (tlsAppendHandshake type body ctx).certVerified = ctx.certVerified := by
  unfold tlsAppendHandshake
  split <;> rfl

@[simp] theorem tlsAppendHandshake_clientCipherActive :
    (tlsAppendHandshake type body ctx).clientCipherActive = ctx.clientCipherActive := by
  unfold tlsAppendHandshake
  split <;> rfl

@[simp] theorem tlsAppendHandshake_rxBuffer :
    (tlsAppendHandshake type body ctx).rxBuffer = ctx.rxBuffer := by
  unfold tlsAppendHandshake
  split <;> rfl

@[simp] theorem tlsAppendHandshake_rxReadPos :
    (tlsAppendHandshake type body ctx).rxReadPos = ctx.rxReadPos := by
  unfold tlsAppendHandshake
  split <;> rfl

end

/-- `tls_tls12_finished_verify` -/
def tlsFinishedVerify (P : TlsPrimitives) (ctx : TlsCtx) (label : String) : List UInt8 :=
  if tlsPrfUsesSha256 ctx then
    P.prf ctx.masterSecret label (P.sha256 ctx.handshakeMessages) 12 true
  else P.prf ctx.masterSecret label (P.sha1 ctx.handshakeMessages) 12 false

/-! ## Keys -/

/-- `tls_derive_keys`; the flag says whether it returned 0. -/
def tlsDeriveKeys (P : TlsPrimitives) (preMaster : List UInt8) (ctx : TlsCtx) : Bool × TlsCtx :=
  let useSha256 := tlsPrfUsesSha256 ctx
  let master := P.prf preMaster "master secret" (ctx.clientRandom ++ ctx.serverRandom) 48 useSha256
  let ctx := { ctx with masterSecret := master, masterSecretReady := true }
  let mac := tlsMacKeyLen ctx
  let enc := tlsEncKeyLen ctx
  let len := 2 * mac + 2 * enc + 2 * 16
  if 128 < len then (false, ctx)
  else
    let block := P.prf master "key expansion" (ctx.serverRandom ++ ctx.clientRandom) len useSha256
    (true,
      { ctx with
        clientMacKey := block.take mac
        serverMacKey := (block.drop mac).take mac
        clientWriteKey := (block.drop (2 * mac)).take enc
        serverWriteKey := (block.drop (2 * mac + enc)).take enc
        clientIv := (block.drop (2 * mac + 2 * enc)).take 16
        serverIv := (block.drop (2 * mac + 2 * enc + 16)).take 16
        clientCipherActive := false
        serverCipherActive := false })

/-- The pre-master secret of `tls_build_client_key_exchange`. -/
def tlsPreMaster (ctx : TlsCtx) : List UInt8 :=
  tlsWriteUint16 ctx.version ++ (List.range 46).map fun i => UInt8.ofNat (0xA5 + (i + 2) * 17)

/-- The PKCS#1 block that carries the pre-master secret under a key of `keyLen` bytes. -/
def tlsEncodedPreMaster (ctx : TlsCtx) (keyLen : Nat) : List UInt8 :=
  [0x00, 0x02] ++
    (List.range (keyLen - 48 - 3)).map (fun i =>
      let v := UInt8.ofNat (0xB7 + i * 29)
      if v = 0 then 1 else v) ++ [0x00] ++ tlsPreMaster ctx

def tlsFail (msg : String) (ctx : TlsCtx) : TlsCtx := { ctx with errorMsg := msg, state := .error }

/-- `tls_build_client_key_exchange`; the flag says whether it returned a record. -/
def tlsBuildClientKeyExchange (P : TlsPrimitives) (ctx : TlsCtx) : Bool × TlsCtx :=
  let keyLen := ctx.serverPubkey.bits / 8
  if !ctx.serverPubkeyReady then (false, tlsFail "tls: missing server key" ctx)
  else if rsaMaxModulusBytes < keyLen ∨ keyLen < 48 + 11 then
    (false, tlsFail "tls: rsa key unsupported" ctx)
  else
    match P.rsaPublicEncrypt ctx.serverPubkey (tlsEncodedPreMaster ctx keyLen) with
    | none => (false, tlsFail "tls: rsa encrypt failed" ctx)
    | some encrypted =>
      let preMaster := tlsPreMaster ctx
      let ctx := tlsAppendHandshake 16 (tlsWriteUint16 encrypted.length ++ encrypted) ctx
      match tlsDeriveKeys P preMaster ctx with
      | (false, ctx) => (false, tlsFail "tls: key derivation failed" ctx)
      | (true, ctx) => (true, { ctx with state := .clientKeyExchangeSent })

/-! ## Handshake messages -/

def tlsProcessServerHello (data : Nat → UInt8) (len : Nat) (ctx : TlsCtx) : Bool × TlsCtx :=
  if len < 38 then (false, ctx)
  else
    let ctx := { ctx with version := tlsReadUint16 data 0, serverRandom := bytesAt data 2 32 }
    let sessionIdLen := (data 34).toNat
    if 32 < sessionIdLen then (false, ctx)
    else
      let ctx :=
        { ctx with
          sessionId := bytesAt data 35 sessionIdLen
          cipherSuite := tlsReadUint16 data (35 + sessionIdLen) }
      let ctx := tlsAppendHandshake 2 (bytesAt data 0 len) ctx
      (true, { ctx with state := .serverHelloReceived })

/-- `x509_parse_cert`, which looks at the length before anything else. -/
def TlsPrimitives.parseCert (P : TlsPrimitives) (der : List UInt8) : Option Cert :=
  if der.length = 0 ∨ x509MaxCertSize < der.length then none else P.x509ParseCert der

/-- The loop of `tls_process_certificate` from `offset` on; every turn moves on by
at least three bytes. -/
def tlsCertificateLoop (P : TlsPrimitives) (data : Nat → UInt8) (limit : Nat) :
    Nat → Nat → List Cert → List Cert
  | 0, _, certs => certs
  | fuel + 1, offset, certs =>
    if limit ≤ offset ∨ x509MaxChainDepth ≤ certs.length ∨ limit < offset + 3 then certs
    else
      let certLen := tlsReadUint24 data offset
      if limit < offset + 3 + certLen then certs
      else
        let certs := match P.parseCert (bytesAt data (offset + 3) certLen) with
          | some cert => certs ++ [cert]
          | none => certs
        tlsCertificateLoop P data limit fuel (offset + 3 + certLen) certs

def tlsProcessCertificate (P : TlsPrimitives) (data : Nat → UInt8) (len : Nat) (ctx : TlsCtx) :
    Bool × TlsCtx :=
  if len < 3 then (false, ctx)
  else
    let limit := 3 + tlsReadUint24 data 0
    let ctx := { ctx with certChain := tlsCertificateLoop P data limit limit 3 [] }
    let ctx := match ctx.certChain with
      | cert :: _ =>
        if cert.rsaKeyReady then { ctx with serverPubkey := cert.rsaKey, serverPubkeyReady := true }
        else ctx
      | [] => ctx
    let ctx := tlsAppendHandshake 11 (bytesAt data 0 len) ctx
    (true, { ctx with state := .certificateReceived })

def tlsFinishedExpected (P : TlsPrimitives) (data : Nat → UInt8) (len : Nat) (ctx : TlsCtx) :
    Bool :=
  len == 12 && tlsFinishedVerify P ctx "server finished" == bytesAt data 0 12

/-- The Finished case of `tls_process_handshake`. -/
def tlsProcessFinished (P : TlsPrimitives) (data : Nat → UInt8) (len : Nat) (ctx : TlsCtx) :
    Bool × TlsCtx :=
  if len ≠ 12 then (false, tlsFail "tls: bad server finished" ctx)
  else if tlsFinishedVerify P ctx "server finished" ≠ bytesAt data 0 12 then
    (false, tlsFail "tls: finished verify failed" ctx)
  else (true, { tlsAppendHandshake 20 (bytesAt data 0 len) ctx with state := .handshakeDone })

/-- The `switch` of `tls_process_handshake` on one message. -/
def tlsProcessMessage (P : TlsPrimitives) (type : UInt8) (data : Nat → UInt8) (len : Nat)
    (ctx : TlsCtx) : Bool × TlsCtx :=
  if type = 2 then tlsProcessServerHello data len ctx
  else if type = 11 then tlsProcessCertificate P data len ctx
  else if type = 12 ∨ type = 13 then (true, tlsAppendHandshake type (bytesAt data 0 len) ctx)
  else if type = 14 then
    (true, { tlsAppendHandshake 14 (bytesAt data 0 len) ctx with state := .serverHelloDoneReceived })
  else if type = 20 then tlsProcessFinished P data len ctx
  else (true, ctx)

/-- `tls_process_handshake` from `offset` on; every turn moves on by at least four
bytes. -/
def tlsProcessHandshake (P : TlsPrimitives) (data : Nat → UInt8) (len : Nat) :
    Nat → Nat → TlsCtx → Bool × TlsCtx
  | 0, _, ctx => (true, ctx)
  | fuel + 1, offset, ctx =>
    if len ≤ offset then (true, ctx)
    else
      let hsLen := tlsReadUint24 data (offset + 1)
      if len < offset + 4 ∨ len < offset + 4 + hsLen then (false, ctx)
      else
        match tlsProcessMessage P (data offset) (fun i => data (offset + 4 + i)) hsLen ctx with
        | (false, ctx) => (false, ctx)
        | (true, ctx) => tlsProcessHandshake P data len fuel (offset + 4 + hsLen) ctx

/-! ## Records -/

def tlsMacInput (seq : Nat) (type : UInt8) (version : Nat) (payload : List UInt8) : List UInt8 :=
  (List.range 8).map (fun i => UInt8.ofNat (seq / 2 ^ (56 - i * 8))) ++ [type] ++
    tlsWriteUint16 version ++ tlsWriteUint16 payload.length ++ payload

/-- The MAC of a record under `key`. -/
def tlsMac (P : TlsPrimitives) (ctx : TlsCtx) (key input : List UInt8) : List UInt8 :=
  if tlsCipherUsesSha256 ctx.cipherSuite then P.hmacSha256 key input else P.hmacSha1 key input

def tlsIsConnected (ctx : TlsCtx) : Bool := ctx.state == .handshakeDone

def tlsBuildRecord (ctx : TlsCtx) (type : UInt8) (payload : List UInt8) (maxLen : Nat) :
    Option (List UInt8) :=
  if maxLen < 5 + payload.length then none
  else some ([type] ++ tlsWriteUint16 ctx.version ++ tlsWriteUint16 payload.length ++ payload)

def tlsEncryptRecord (P : TlsPrimitives) (type : UInt8) (input : List UInt8) (maxOutput : Nat)
    (ctx : TlsCtx) : Option (List UInt8) × TlsCtx :=
  if !tlsIsConnected ctx && !ctx.clientCipherActive then (none, ctx)
  else if !ctx.clientCipherActive then (tlsBuildRecord ctx type input maxOutput, ctx)
  else
    let macLen := tlsMacKeyLen ctx
    if 4096 < input.length + macLen + 16 + 1 then (none, ctx)
    else
      let iv := (List.range 16).map fun i => UInt8.ofNat (0x33 + ctx.clientSeq * 13 + i * 7)
      let mac := (tlsMac P ctx ctx.clientMacKey
        (tlsMacInput ctx.clientSeq type ctx.version input)).take macLen
      let body := input ++ mac
      let padLen := (16 - (body.length + 1) % 16) % 16
      let plain := body ++ List.replicate (padLen + 1) (UInt8.ofNat padLen)
      let encLen := 16 + plain.length
      if maxOutput < 5 + encLen then (none, ctx)
      else
        match P.aesEncryptCbc ctx.clientWriteKey iv plain with
        | none => (none, ctx)
        | some cipher =>
          (some ([type] ++ tlsWriteUint16 ctx.version ++ tlsWriteUint16 encLen ++ iv ++ cipher),
            { ctx with clientSeq := ctx.clientSeq + 1 })

/-- `tls_decrypt_record` on a record of the given type and payload, into a buffer of
4096 bytes, once the server's cipher is active. -/
def tlsDecryptRecord (P : TlsPrimitives) (type : UInt8) (payload : List UInt8) (ctx : TlsCtx) :
    Option (List UInt8 × TlsCtx) :=
  if ¬ (type = 23 ∨ type = 22 ∨ type = 21) then none
  else if payload.length < 32 ∨ (payload.length - 16) % 16 ≠ 0 ∨ 4096 < payload.length - 16 then none
  else
    match P.aesDecryptCbc ctx.serverWriteKey (payload.take 16) (payload.drop 16) with
    | none => none
    | some plain =>
      let padLen := (plain.getLastD 0).toNat
      if plain.length < padLen + 1 then none
      else if (plain.drop (plain.length - (padLen + 1))).any (· != UInt8.ofNat padLen) then none
      else
        let body := plain.take (plain.length - (padLen + 1))
        let macLen := tlsMacKeyLen ctx
        if body.length < macLen then none
        else
          let msg := body.take (body.length - macLen)
          if 4096 < msg.length + 13 then none
          else
            let mac := (tlsMac P ctx ctx.serverMacKey
              (tlsMacInput ctx.serverSeq type ctx.version msg)).take macLen
            if mac ≠ body.drop (body.length - macLen) then none
            else some (msg, { ctx with serverSeq := ctx.serverSeq + 1 })

def bufferOf (bytes : List UInt8) (behind : Nat → UInt8) (i : Nat) : UInt8 :=
  bytes.getD i (behind i)

def tlsProcessPlainRecord (P : TlsPrimitives) (type : UInt8) (data : Nat → UInt8) (len : Nat)
    (ctx : TlsCtx) : Bool × TlsCtx :=
  if type = 22 then tlsProcessHandshake P data len len 0 ctx
  else if type = 21 then
    (true,
      if 2 ≤ len then
        { ctx with alertLevel := data 0, alertDescription := data 1, state := .error }
      else ctx)
  else if type = 20 then
    (true,
      if len = 1 ∧ data 0 = 1 then
        { ctx with serverCipherActive := true, state := .changeCipherSpecReceived }
      else ctx)
  else if type = 23 then
    (true,
      { ctx with
        appBuffer := ctx.appBuffer ++ bytesAt data 0 (min len (8192 - ctx.appBuffer.length)) })
  else (false, ctx)

/-- `tls_process_record` on a complete record. -/
def tlsProcessRecord (P : TlsPrimitives) (behind : Nat → UInt8) (data : Nat → UInt8)
    (ctx : TlsCtx) :
    Bool × TlsCtx :=
  let type := data 0
  let recordLen := tlsReadUint16 data 3
  if ctx.serverCipherActive ∧ type ≠ 20 then
    match tlsDecryptRecord P type (bytesAt data 5 recordLen) ctx with
    | none => (false, tlsFail "tls: decrypt failed" ctx)
    | some (msg, ctx) => tlsProcessPlainRecord P type (bufferOf msg behind) msg.length ctx
  else tlsProcessPlainRecord P type (fun i => data (5 + i)) recordLen ctx

/-! ## The driver -/

/-- `tls_build_finished_record` into a buffer of 4096 bytes -/
def tlsBuildFinishedRecord (P : TlsPrimitives) (label : String) (ctx : TlsCtx) :
    Option (List UInt8) × TlsCtx :=
  let verify := tlsFinishedVerify P ctx label
  match tlsEncryptRecord P 22 ([20] ++ tlsWriteUint24 12 ++ verify) 4096 ctx with
  | (none, ctx) => (none, ctx)
  | (some record, ctx) => (some record, tlsAppendHandshake 20 verify ctx)

/-- The second flight of the client, sent when the ServerHelloDone has been seen.
`sends` are the outcomes of the calls of `tls_send_raw`. -/
def tlsClientFlight (P : TlsPrimitives) (sends : Fin 3 → Bool) (ctx : TlsCtx) : Bool × TlsCtx :=
  match tlsBuildClientKeyExchange P ctx with
  | (false, ctx) => (false, ctx)
  | (true, ctx) =>
    if !sends 0 || !sends 1 then (false, ctx)
    else
      match tlsBuildFinishedRecord P "client finished"
          { ctx with clientCipherActive := true, state := .changeCipherSpecSent } with
      | (none, ctx) => (false, ctx)
      | (some _, ctx) =>
        if !sends 2 then (false, ctx) else (true, { ctx with state := .finishedSent })

/-- The environment of one call that receives: what the socket returns, the memory
behind the buffers, and the outcomes of the sends. -/
structure TlsInput where
  received : List UInt8
  behind : Nat → UInt8
  sends : Nat → Fin 3 → Bool

/-- The record loop of `tls_process_rx_data`; every turn consumes at least five bytes. -/
def tlsRecordLoop (P : TlsPrimitives) (inp : TlsInput) : Nat → TlsCtx → Bool × TlsCtx
  | 0, ctx => (true, ctx)
  | fuel + 1, ctx =>
    let avail := ctx.rxBuffer.length - ctx.rxReadPos
    let data := bufferOf (ctx.rxBuffer.drop ctx.rxReadPos) inp.behind
    let recordLen := tlsReadUint16 data 3
    if avail < 5 ∨ avail < 5 + recordLen then (true, ctx)
    else
      match tlsProcessRecord P inp.behind data ctx with
      | (false, ctx) => (false, ctx)
      | (true, ctx) =>
        let ctx := { ctx with rxReadPos := ctx.rxReadPos + (5 + recordLen) }
        if ctx.state = .serverHelloDoneReceived then
          match tlsClientFlight P (inp.sends fuel) ctx with
          | (false, ctx) => (false, ctx)
          | (true, ctx) => tlsRecordLoop P inp fuel ctx
        else tlsRecordLoop P inp fuel ctx

/-- The part of `tls_process_rx_data` that appends what was received. -/
def tlsReceive (inp : TlsInput) (ctx : TlsCtx) : TlsCtx :=
  { ctx with
    rxBuffer := ctx.rxBuffer ++ (inp.received.take 4096).take (16384 - ctx.rxBuffer.length) }

def tlsProcessRxData (P : TlsPrimitives) (inp : TlsInput) (ctx : TlsCtx) : Bool × TlsCtx :=
  let ctx := tlsReceive inp ctx
  match tlsRecordLoop P inp ctx.rxBuffer.length ctx with
  | (false, ctx) => (false, ctx)
  | (true, ctx) => (true, { ctx with rxBuffer := ctx.rxBuffer.drop ctx.rxReadPos, rxReadPos := 0 })

def tlsPoll (P : TlsPrimitives) (inp : TlsInput) (ctx : TlsCtx) : Bool × TlsCtx :=
  if ctx.state = .error then (false, ctx) else tlsProcessRxData P inp ctx

/-- `tls_write`; the result is the record handed to the socket. -/
def tlsWrite (P : TlsPrimitives) (data : List UInt8) (ctx : TlsCtx) :
    Option (List UInt8) × TlsCtx :=
  if data = [] then (none, ctx)
  else if !tlsIsConnected ctx then (none, ctx)
  else tlsEncryptRecord P 23 data 4096 ctx

/-- The part of `tls_read` that takes up to `size` bytes from the application buffer;
`none` when there are none. -/
def tlsTakeApp (size : Nat) (ctx : TlsCtx) : Option (List UInt8 × TlsCtx) :=
  if ctx.appReadPos < ctx.appBuffer.length then
    let out := (ctx.appBuffer.drop ctx.appReadPos).take size
    let pos := ctx.appReadPos + out.length
    some (out,
      if ctx.appBuffer.length ≤ pos then { ctx with appBuffer := [], appReadPos := 0 }
      else { ctx with appReadPos := pos })
  else none

def tlsRead (P : TlsPrimitives) (inp : TlsInput) (size : Nat) (ctx : TlsCtx) :
    List UInt8 × TlsCtx :=
  if size = 0 then ([], ctx)
  else
    match tlsTakeApp size ctx with
    | some r => r
    | none =>
      let ctx := (tlsPoll P inp ctx).2
      match tlsTakeApp size ctx with
      | some r => r
      | none => ([], ctx)

/-! ## A connection in use -/

/-- What the application does with a connection.  The bytes a call receives are the
network's, so an attacker chooses them. -/
inductive TlsEvent
  | poll (inp : TlsInput)
  | write (data : List UInt8)
  | read (inp : TlsInput) (size : Nat)
  | close

/-- A connection and the application records it has handed to the socket, each with
the context it was written in. -/
structure TlsConn where
  ctx : TlsCtx
  written : List (TlsCtx × List UInt8)

/-- One call of the application.  `tls_verify_certificate` is not among them: nothing
in the tree calls it. -/
def tlsStep (P : TlsPrimitives) (c : TlsConn) : TlsEvent → Option TlsConn
  | .poll inp => some { c with ctx := (tlsPoll P inp c.ctx).2 }
  | .write data =>
    match tlsWrite P data c.ctx with
    | (some r, ctx) => some ⟨ctx, c.written ++ [(c.ctx, r)]⟩
    | (none, ctx) => some { c with ctx := ctx }
  | .read inp size => some { c with ctx := (tlsRead P inp size c.ctx).2 }
  | .close => some { c with ctx := { c.ctx with state := .init } }

end Monios.Model

/-!
# TLS records on the wire

`tls_decrypt_record` with the header that it reads, the functions of `aes.c` and `hash.c` that the
record layer is linked to, and what is done with a sequence of records at the two ends.
-/

namespace Monios.Model

open Monios.Library

/-- A call of `aes_encrypt_cbc` or `aes_decrypt_cbc` on a context that has been set up with a key
and an IV. -/
def tlsAesCbc (crypt : AesCtx → Nat → Nat → Nat → AesMemory → Int × AesMemory)
    (key iv data : List UInt8) :
    Option (List UInt8) :=
  (aesInit key).bind fun ctx =>
    let r := aesCbcBuffers crypt (aesSetIv ctx (Block.ofBytes iv)) data
    if r.1 ≠ 0 then none else some r.2

/-- The cipher and the keyed hashes that `tls.c` is linked to. -/
def tlsLinked (P : TlsPrimitives) : TlsPrimitives :=
  { P with
    hmacSha1 := Hash.hmacSha1
    hmacSha256 := Hash.hmacSha256
    aesEncryptCbc := tlsAesCbc aesEncryptCbc
    aesDecryptCbc := tlsAesCbc aesDecryptCbc }

def tlsRecordLen (input : List UInt8) : Nat := tlsReadUint16 (fun i => input.getD i 0) 3

def tlsFrame (input : List UInt8) : UInt8 × List UInt8 :=
  (input.headD 0, (input.drop 5).take (tlsRecordLen input))

/-- `tls_decrypt_record` into a buffer of 4096 bytes: the type and the bytes -/
def tlsDecryptWire (P : TlsPrimitives) (input : List UInt8) (ctx : TlsCtx) :
    Option ((UInt8 × List UInt8) × TlsCtx) :=
  if input.length < 5 then none
  else
    let (type, payload) := tlsFrame input
    if ¬ (type = 23 ∨ type = 22 ∨ type = 21) then none
    else if input.length < 5 + tlsRecordLen input then none
    else if !ctx.serverCipherActive then if 4096 < payload.length then none else some ((type, payload), ctx)
    else (tlsDecryptRecord P type payload ctx).map fun r => ((type, r.1), r.2)

/-- `tls_encrypt_record` for one record after the other, until one is refused. -/
def tlsEncryptRecords (P : TlsPrimitives) (maxOutput : Nat) :
    List (UInt8 × List UInt8) → TlsCtx → Option (List (List UInt8) × TlsCtx)
  | [], ctx => some ([], ctx)
  | (type, input) :: records, ctx =>
    match tlsEncryptRecord P type input maxOutput ctx with
    | (none, _) => none
    | (some wire, ctx) => (tlsEncryptRecords P maxOutput records ctx).map fun r => (wire :: r.1, r.2)

/-- `tls_decrypt_record` for one record after the other: those that are accepted, with what they
deliver. -/
def tlsDecryptRecords (P : TlsPrimitives) :
    List (List UInt8) → TlsCtx → List (List UInt8 × UInt8 × List UInt8) × TlsCtx
  | [], ctx => ([], ctx)
  | wire :: wires, ctx =>
    match tlsDecryptWire P wire ctx with
    | none => tlsDecryptRecords P wires ctx
    | some (record, ctx) =>
      let (accepted, ctx) := tlsDecryptRecords P wires ctx
      ((wire, record) :: accepted, ctx)

end Monios.Model
