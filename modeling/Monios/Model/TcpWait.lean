import Monios.Model.Socket

/-!
# Calls that wait

`tcp_send_segment` waits for the address of the next hop when the ARP cache does not have it, and
polls the card meanwhile: packets are handled in the middle of the call that sends.
`Monios.Model.Tcp` and `Monios.Model.Socket` have the calls without the packets in between; here
each call is cut where it waits.  What is left to do is kept: at most one call of the socket layer
waits, and above it handlers of packets, each of them called while the one below it was waiting.

`id` is the identity of the connection that a call has taken or sends on; it is kept to state what
the call stands for.
-/

set_option autoImplicit false

namespace Monios.Model

/-- What is left of a call of the socket layer. -/
inductive TcpCall
  | connect (k : TcpSlot) (id : Nat)
  | send (k : TcpSlot) (id offset len : Nat)
  | close (k : TcpSlot) (id : Nat)
  deriving DecidableEq

/-- What is left of `tcp_handle_ipv4`: the end of `tcp_passive_open`, or the end of a connection
whose FIN is answered. -/
inductive TcpHandler
  | opened (k : TcpSlot) (id : Nat)
  | closed (k : TcpSlot)
  deriving DecidableEq

/-! ## Up to the wait -/

/-- `tcp_connect` up to the choice of the port. -/
def tcpConnectPort (t : Tcp) (remotePort localPort : UInt16) : Option UInt16 × Tcp :=
  if remotePort = 0 then (none, t)
  else if localPort = 0 then
    let r := tcpAllocEphemeralPort 1000 t
    if r.1 = 0 then (none, r.2) else (some r.1, r.2)
  else if tcpPortInUse t localPort then (none, t)
  else (some localPort, t)

/-- A new connection takes an entry. -/
def Tcp.take (t : Tcp) (k : TcpSlot) (c : TcpConnection) : Tcp :=
  { t with nextId := t.nextId + 1 }.set k { c with id := t.nextId }

def tcpConnectBegin (t : Tcp) (remoteIp : UInt32) (remotePort localPort : UInt16) (seq : UInt32) :
    Option TcpSlot × Tcp :=
  match tcpConnectPort t remotePort localPort with
  | (none, t) => (none, t)
  | (some port, t) =>
    match t.firstFree with
    | none => (none, t)
    | some k =>
      (some k, t.take k { used := true, state := .synSent, remoteIp := remoteIp, remotePort := remotePort,
                          localPort := port, seqNum := seq })

/-- The checks of `tcp_send`. -/
def tcpSendBegin (t : Tcp) (handle : Int) (len : Nat) : Option TcpCall :=
  match tcpGetConnection t handle with
  | none => none
  | some k =>
    if len = 0 ∨ (t.connections k).state ≠ .established then none else some (.send k (t.connections k).id 0 len)

def tcpCloseBegin (t : Tcp) (handle : Int) : Option TcpCall × Tcp :=
  match tcpGetConnection t handle with
  | none => (none, t)
  | some k =>
    let c := t.connections k
    match c.state with
    | .established => (some (.close k c.id), t.set k { c with state := .finWait1 })
    | .closeWait => (some (.close k c.id), t.set k { c with state := .lastAck })
    | _ => (none, t.set k {})

def tcpPassiveBegin (t : Tcp) (p : TcpSegment) (seq : UInt32) : Option TcpHandler × Tcp :=
  match t.firstFree with
  | none => (none, t)
  | some k =>
    (some (.opened k t.nextId),
      t.take k { used := true, passive := true, state := .synRcvd, remoteIp := p.srcIp, remotePort := p.srcPort,
                 localPort := p.dstPort, seqNum := seq, remoteSeq := p.seq, ackNum := p.seq + 1 })

/-- Whether the segment is a FIN that ends the connection, once it is answered. -/
def finishes (c : TcpConnection) (p : TcpSegment) : Bool :=
  (decide (c.state = .finWait1) || decide (c.state = .finWait2)) && p.has tcpFlagFin && p.seq == c.ackNum

/-- The entry while the FIN is answered. -/
def finAnswered (c : TcpConnection) (p : TcpSegment) : TcpConnection :=
  { c with
    state := if decide (c.state = .finWait1) && p.has tcpFlagAck && p.ack == c.seqNum then .finWait2 else c.state
    ackNum := p.seq + 1 }

/-- `tcp_handle_ipv4` on a connection.  Apart from the FIN that ends a connection, what is sent is
sent at the end. -/
def tcpHandleStateBegin (t : Tcp) (k : TcpSlot) (p : TcpSegment) : Option TcpHandler × Tcp :=
  let c := t.connections k
  if finishes c p then (some (.closed k), t.set k (finAnswered c p)) else (none, t.set k (tcpHandleState c p))

def tcpHandleSegmentBegin (t : Tcp) (p : TcpSegment) (seq : UInt32) : Option TcpHandler × Tcp :=
  match tcpLookup t p with
  | some k => tcpHandleStateBegin t k p
  | none =>
    if p.has tcpFlagSyn && !p.has tcpFlagAck && t.listeners.contains p.dstPort then tcpPassiveBegin t p seq else (none, t)

def tcpHandleBegin (localIp : UInt32) (t : Tcp) (packet : List UInt8) (seq : UInt32) :
    Option TcpHandler × Tcp :=
  match tcpParse localIp packet with
  | some p => tcpHandleSegmentBegin t p seq
  | none => (none, t)

/-! ## After the wait -/

/-- `conn->seq_num += n` -/
def Tcp.advance (t : Tcp) (k : TcpSlot) (n : Nat) : Tcp :=
  t.set k { t.connections k with seqNum := (t.connections k).seqNum + UInt32.ofNat n }

/-- The bytes of the segment that `tcp_send` sends next. -/
def sendChunk (offset len : Nat) : Nat := min (len - offset) 1460

/-- The rest of a call, up to its next wait.  `sent` is what `tcp_send_segment` returns; `tcp_close`
does not look at it. -/
def TcpCall.resume (t : Tcp) (sent : Bool) : TcpCall → Option TcpCall × Tcp
  | .connect k _ => (none, if sent then t.advance k 1 else t.set k { t.connections k with used := false })
  | .send k id offset len =>
    if sent then
      let next := offset + sendChunk offset len
      (if next < len then some (.send k id next len) else none, t.advance k (sendChunk offset len))
    else (none, t)
  | .close k _ => (none, t.advance k 1)

def TcpHandler.resume (t : Tcp) (sent : Bool) : TcpHandler → Tcp
  | .opened k _ => if sent then t.advance k 1 else t.set k {}
  | .closed k => t.set k {}

/-! ## The stack of TCP -/

/-- The state of `tcp.c` with the calls that wait; the innermost handler comes first. -/
structure TcpWait where
  tcp : Tcp := {}
  call : Option TcpCall := none
  handlers : List TcpHandler := []

inductive TcpWaitAction
  | listen (port : UInt16)
  | accept (port : UInt16)
  | connect (remoteIp : UInt32) (remotePort localPort : UInt16) (seq : UInt32)
  | close (handle : Int)
  | send (handle : Int) (len : Nat)
  | recv (handle : Int) (bufferSize : Nat)
  /-- a packet arrives -/
  | deliver (localIp : UInt32) (packet : List UInt8) (seq : UInt32)
  /-- the innermost `tcp_send_segment` returns -/
  | resume (sent : Bool)

/-- A call up to its first wait. -/
def TcpWait.begin (s : TcpWait) : TcpWaitAction → TcpWait
  | .listen port => { s with tcp := (tcpListenPort s.tcp port).2 }
  | .accept port => { s with tcp := ((tcpAcceptReady s.tcp port).map Prod.snd).getD s.tcp }
  | .connect remoteIp remotePort localPort seq =>
    let r := tcpConnectBegin s.tcp remoteIp remotePort localPort seq
    { s with tcp := r.2, call := r.1.map fun k => .connect k (r.2.connections k).id }
  | .close handle =>
    let r := tcpCloseBegin s.tcp handle
    { s with tcp := r.2, call := r.1 }
  | .send handle len => { s with call := tcpSendBegin s.tcp handle len }
  | .recv handle bufferSize => { s with tcp := (tcpRecv s.tcp handle bufferSize).2 }
  | _ => s

def TcpWait.step (s : TcpWait) : TcpWaitAction → Option TcpWait
  | .deliver localIp packet seq =>
    let r := tcpHandleBegin localIp s.tcp packet seq
    some { s with tcp := r.2, handlers := r.1.toList ++ s.handlers }
  | .resume sent =>
    match s.handlers, s.call with
    | h :: handlers, _ => some { s with tcp := h.resume s.tcp sent, handlers := handlers }
    | [], some c =>
      let r := c.resume s.tcp sent
      some { s with tcp := r.2, call := r.1 }
    | [], none => none
  | a => if s.call = none ∧ s.handlers = [] then some (s.begin a) else none

/-! ## Sockets -/

/-- The sockets with the calls that wait: the socket that calls, and what is left of its call. -/
structure NetWait where
  net : Net := {}
  call : Option (SocketSlot × TcpCall) := none
  handlers : List TcpHandler := []

inductive NetWaitAction
  | openTcp (localPort : UInt16)
  | connect (handle : Int) (dst : Option UInt32) (dstPort : UInt16) (seq : UInt32)
  | listen (handle : Int)
  | accept (handle : Int)
  | send (handle : Int) (len : Nat)
  | recv (handle : Int) (bufferSize : Nat)
  | close (handle : Int)
  | deliver (localIp : UInt32) (packet : List UInt8) (seq : UInt32)
  | resume (sent : Bool)

def Net.setTcp (s : Net) (tcp : Tcp) : Net := { s with tcp := tcp }

def socketTcpConnectBegin (s : Net) (handle : Int) (dst : Option UInt32) (dstPort : UInt16)
    (seq : UInt32) : NetWait :=
  match tcpSocket s handle, dst with
  | some i, some ip =>
    let r := tcpConnectBegin s.tcp ip dstPort (s.sockets i).localPort seq
    { net := s.setTcp r.2, call := r.1.map fun k => (i, .connect k (r.2.connections k).id) }
  | _, _ => { net := s }

def socketTcpSendBegin (s : Net) (handle : Int) (len : Nat) : NetWait :=
  match tcpSocket s handle with
  | none => { net := s }
  | some i =>
    if (s.sockets i).tcpHandle < 0 then { net := s }
    else { net := s, call := (tcpSendBegin s.tcp (s.sockets i).tcpHandle len).map fun c => (i, c) }

def socketCloseBegin (s : Net) (handle : Int) : NetWait :=
  match socketFromHandle s handle with
  | none => { net := s }
  | some i =>
    if (s.sockets i).isTcp ∧ 0 ≤ (s.sockets i).tcpHandle then
      match tcpCloseBegin s.tcp (s.sockets i).tcpHandle with
      | (some c, tcp) => { net := s.setTcp tcp, call := some (i, c) }
      | (none, tcp) => { net := (s.setTcp tcp).set i {} }
    else { net := s.set i {} }

def NetWait.begin (s : Net) : NetWaitAction → NetWait
  | .openTcp localPort => { net := (socketTcpOpen s localPort).2 }
  | .connect handle dst dstPort seq => socketTcpConnectBegin s handle dst dstPort seq
  | .listen handle => { net := socketTcpListen s handle }
  | .accept handle => { net := socketTcpAccept s handle }
  | .send handle len => socketTcpSendBegin s handle len
  | .recv handle bufferSize => { net := (socketTcpRecv s handle bufferSize).2 }
  | .close handle => socketCloseBegin s handle
  | _ => { net := s }

/-- What a call of the socket layer does to its socket when it is over. -/
def socketEnd (s : Net) (i : SocketSlot) (sent : Bool) : TcpCall → Net
  | .connect k id =>
    if sent then s.set i { s.sockets i with tcpHandle := ((k : Nat) : Int) + 1, conn := some id } else s
  | .send _ _ _ _ => s
  | .close _ _ => s.set i {}

def NetWait.step (s : NetWait) : NetWaitAction → Option NetWait
  | .deliver localIp packet seq =>
    let r := tcpHandleBegin localIp s.net.tcp packet seq
    some { s with net := s.net.setTcp r.2, handlers := r.1.toList ++ s.handlers }
  | .resume sent =>
    match s.handlers, s.call with
    | h :: handlers, _ =>
      some { s with net := s.net.setTcp (h.resume s.net.tcp sent), handlers := handlers }
    | [], some (i, c) =>
      match c.resume s.net.tcp sent with
      | (some rest, tcp) => some { s with net := s.net.setTcp tcp, call := some (i, rest) }
      | (none, tcp) => some { s with net := socketEnd (s.net.setTcp tcp) i sent c, call := none }
    | [], none => none
  | a => if s.call = none ∧ s.handlers = [] then some (NetWait.begin s.net a) else none

/-! ## Calls that do not wait -/

/-- With no packet in between, `tcp_connect` is what `tcpConnect` says. -/
theorem tcpConnect_eq (t : Tcp) (remoteIp : UInt32) (remotePort localPort : UInt16) (seq : UInt32)
    (sent : Bool) :
    (tcpConnect t remoteIp remotePort localPort seq sent).2 =
      match tcpConnectBegin t remoteIp remotePort localPort seq with
      | (none, t) => t
      | (some k, t) => ((TcpCall.connect k (t.connections k).id).resume t sent).2 := by
  have hfrom (t : Tcp) (port : UInt16) : (tcpConnectFrom t remoteIp remotePort port seq sent).2 =
      match (match t.firstFree with
        | none => (none, t)
        | some k =>
          (some k, t.take k { used := true, state := .synSent, remoteIp := remoteIp, remotePort := remotePort,
                              localPort := port, seqNum := seq }) : Option TcpSlot × Tcp) with
      | (none, t) => t
      | (some k, t) => ((TcpCall.connect k (t.connections k).id).resume t sent).2 := by
    unfold tcpConnectFrom
    cases t.firstFree with
    | none => rfl
    | some k => cases sent <;> simp [TcpCall.resume, Tcp.take, Tcp.advance, Tcp.set]
  unfold tcpConnect tcpConnectBegin tcpConnectPort
  split
  · rfl
  · split
    · dsimp only
      split
      · rfl
      · exact hfrom _ _
    · split
      · rfl
      · exact hfrom _ _

/-- With no packet in between, `tcp_close` is what `tcpClose` says. -/
theorem tcpClose_eq (t : Tcp) (handle : Int) (sent : Bool) : tcpClose t handle =
    match tcpCloseBegin t handle with
    | (none, t) => t
    | (some c, t) => (c.resume t sent).2 := by
  unfold tcpClose tcpCloseBegin
  cases tcpGetConnection t handle with
  | none => rfl
  | some k =>
    dsimp only
    cases (t.connections k).state <;> simp [TcpCall.resume, Tcp.advance, Tcp.set]

/-- With no packet in between, `tcp_handle_ipv4` is what `tcpHandleIpv4` says. -/
theorem tcpHandleIpv4_eq (localIp : UInt32) (t : Tcp) (packet : List UInt8) (seq : UInt32)
    (sent : Bool) :
    tcpHandleIpv4 localIp t packet seq sent =
      match tcpHandleBegin localIp t packet seq with
      | (none, t) => t
      | (some h, t) => h.resume t sent := by
  unfold tcpHandleIpv4 tcpHandleBegin
  cases tcpParse localIp packet with
  | none => rfl
  | some p =>
    dsimp only
    unfold tcpHandleSegment tcpHandleSegmentBegin
    cases tcpLookup t p with
    | some k =>
      dsimp only
      unfold tcpHandleStateBegin
      dsimp only
      cases hfin : finishes (t.connections k) p with
      | false => rfl
      | true =>
        -- the entry is cleared at the end
        have hcleared : tcpHandleState (t.connections k) p = {} := by
          simp only [finishes, Bool.and_eq_true, Bool.or_eq_true, decide_eq_true_eq] at hfin
          obtain ⟨⟨hstate, hflag⟩, hseq⟩ := hfin
          unfold tcpHandleState
          rcases hstate with hstate | hstate
          · rw [hstate]
            dsimp only
            split
            · rw [if_pos (by simp [hflag, hseq])]
            · rw [if_pos (by simp [hflag, hseq])]
          · rw [hstate]
            dsimp only
            rw [if_pos (by simp [hflag, hseq])]
        rw [hcleared]
        simp [TcpHandler.resume, Tcp.set]
    | none =>
      dsimp only
      split
      · unfold tcpPassiveOpen tcpPassiveBegin
        cases t.firstFree with
        | none => rfl
        | some k => cases sent <;> simp [TcpHandler.resume, Tcp.take, Tcp.advance, Tcp.set]
      · rfl

end Monios.Model
