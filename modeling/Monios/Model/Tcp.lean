import Mathlib.Algebra.Order.Ring.Int
import Mathlib.Data.List.FinRange

/-!
# TCP connections

`kernel/net/tcp.c`: the table of connections, the listeners, the calls of the socket layer and the
handler for received packets.

Every connection has an identity, `id`, that is given out when the entry is taken and that the
source does not have; a received byte is kept together with the identity of the connection it was
received on.  Both are there to state what a byte belongs to: no function decides anything with
them.

`sent` says whether `tcp_send_segment` succeeds, and `seq` is what `tcp_generate_conn_seq` returns.
The segments that are sent are not part of the state.
-/

set_option autoImplicit false

namespace Monios.Model

/-- `TCP_MAX_CONNECTIONS` -/
abbrev TcpSlot := Fin 4

/-- The states `TCP_STATE_…` -/
inductive TcpState
  | closed | synSent | established | finWait1 | finWait2 | closeWait | lastAck | timeWait | synRcvd
  deriving DecidableEq, Repr

/-- `tcp_connection_t`.  `rxBuffer` holds the `rx_len` bytes in use. -/
structure TcpConnection where
  used : Bool := false
  passive : Bool := false
  accepted : Bool := false
  state : TcpState := .closed
  remoteIp : UInt32 := 0
  remotePort : UInt16 := 0
  localPort : UInt16 := 0
  seqNum : UInt32 := 0
  ackNum : UInt32 := 0
  remoteSeq : UInt32 := 0
  remoteAck : UInt32 := 0
  remoteWindow : UInt16 := 0
  rxBuffer : List (Nat × UInt8) := []
  rxReadPos : Nat := 0
  rxReady : Bool := false
  id : Nat := 0
  deriving DecidableEq, Repr

/-- `g_connections`, `g_listeners` and `g_next_ephemeral_port`, with the next identity. -/
structure Tcp where
  connections : TcpSlot → TcpConnection := fun _ => {}
  listeners : List UInt16 := []
  nextEphemeralPort : UInt16 := 49152
  nextId : Nat := 0

/-- The fields of a received segment that `tcp_handle_ipv4` reads, after the checks of the headers.
-/
structure TcpSegment where
  srcIp : UInt32
  srcPort : UInt16
  dstPort : UInt16
  seq : UInt32
  ack : UInt32
  flags : UInt8
  window : UInt16
  data : List UInt8
  deriving DecidableEq, Repr

/-- `TCP_FLAG_FIN`, `TCP_FLAG_SYN`, `TCP_FLAG_RST` and `TCP_FLAG_ACK` -/
def tcpFlagFin : UInt8 := 0x01

def tcpFlagSyn : UInt8 := 0x02

def tcpFlagRst : UInt8 := 0x04

def tcpFlagAck : UInt8 := 0x10

def TcpSegment.has (p : TcpSegment) (flag : UInt8) : Bool := p.flags &&& flag != 0

/-! ## The table -/

def Tcp.set (t : Tcp) (i : TcpSlot) (c : TcpConnection) : Tcp :=
  { t with connections := Function.update t.connections i c }

def Tcp.firstFree (t : Tcp) : Option TcpSlot :=
  (List.finRange 4).find? fun i => !(t.connections i).used

/-- `tcp_get_connection`; the handle of the entry `i` is `i + 1`. -/
def tcpGetConnection (t : Tcp) (handle : Int) : Option TcpSlot :=
  (List.finRange 4).find? fun i => decide (((i : Nat) : Int) + 1 = handle) && (t.connections i).used

def tcpPortInUse (t : Tcp) (port : UInt16) : Bool :=
  (List.finRange 4).any fun i => (t.connections i).used && (t.connections i).localPort == port

/-- The loop of `tcp_alloc_ephemeral_port` -/
def tcpAllocEphemeralPort : Nat → Tcp → UInt16 × Tcp
  | 0, t => (0, t)
  | rounds + 1, t =>
    let port := t.nextEphemeralPort
    let next := if port + 1 < 49152 then 49152 else port + 1
    let t := { t with nextEphemeralPort := next }
    if !tcpPortInUse t port then (port, t) else tcpAllocEphemeralPort rounds t

/-- `tcp_seq_between`, for the signs of the two 32-bit differences. -/
def tcpSeqBetween (value start stop : UInt32) : Bool :=
  value - start < 0x80000000 && stop - value < 0x80000000

def tcpAckValid (c : TcpConnection) (ack : UInt32) : Bool := tcpSeqBetween ack c.remoteAck c.seqNum

/-! ## The calls of the socket layer -/

def tcpListenPort (t : Tcp) (port : UInt16) : Bool × Tcp :=
  if port = 0 then (false, t)
  else if t.listeners.length < 4 then (true, { t with listeners := t.listeners ++ [port] })
  else (false, t)

/-- `tcp_accept_ready`: the entry that is handed out. -/
def tcpAcceptReady (t : Tcp) (port : UInt16) : Option (TcpSlot × Tcp) :=
  match (List.finRange 4).find? fun i =>
      let c := t.connections i
      c.used && c.passive && !c.accepted && c.localPort == port && decide (c.state = .established) with
  | some i => some (i, t.set i { t.connections i with accepted := true })
  | none => none

/-- The part of `tcp_connect` behind the choice of the port. -/
def tcpConnectFrom (t : Tcp) (remoteIp : UInt32) (remotePort localPort : UInt16) (seq : UInt32)
    (sent : Bool) :
    Option TcpSlot × Tcp :=
  match t.firstFree with
  | none => (none, t)
  | some i =>
    let c : TcpConnection :=
      { used := true, state := .synSent, remoteIp := remoteIp, remotePort := remotePort, localPort := localPort,
        seqNum := seq, id := t.nextId }
    let t := { t with nextId := t.nextId + 1 }
    if !sent then (none, t.set i { c with used := false })
    else (some i, t.set i { c with seqNum := seq + 1 })

/-- `tcp_connect`; `none` is `-1`. -/
def tcpConnect (t : Tcp) (remoteIp : UInt32) (remotePort localPort : UInt16) (seq : UInt32)
    (sent : Bool) :
    Option TcpSlot × Tcp :=
  if remotePort = 0 then (none, t)
  else if localPort = 0 then
    let r := tcpAllocEphemeralPort 1000 t
    if r.1 = 0 then (none, r.2) else tcpConnectFrom r.2 remoteIp remotePort r.1 seq sent
  else if tcpPortInUse t localPort then (none, t)
  else tcpConnectFrom t remoteIp remotePort localPort seq sent

def tcpClose (t : Tcp) (handle : Int) : Tcp :=
  match tcpGetConnection t handle with
  | none => t
  | some i =>
    let c := t.connections i
    match c.state with
    | .established => t.set i { c with state := .finWait1, seqNum := c.seqNum + 1 }
    | .closeWait => t.set i { c with state := .lastAck, seqNum := c.seqNum + 1 }
    | _ => t.set i {}

/-- `tcp_send`.  `sentBytes` is how many of the bytes the loop gets sent. -/
def tcpSend (t : Tcp) (handle : Int) (data : List UInt8) (sentBytes : Nat) : Int × Tcp :=
  match tcpGetConnection t handle with
  | none => (-1, t)
  | some i =>
    let c := t.connections i
    if data.isEmpty ∨ c.state ≠ .established then (-1, t)
    else
      let offset := min sentBytes data.length
      if offset = 0 then (-1, t)
      else (offset, t.set i { c with seqNum := c.seqNum + UInt32.ofNat offset })

/-- `tcp_recv`: the bytes that are copied, or `none` for `-1`. -/
def tcpRecv (t : Tcp) (handle : Int) (bufferSize : Nat) : Option (List (Nat × UInt8)) × Tcp :=
  match tcpGetConnection t handle with
  | none => (none, t)
  | some i =>
    let c := t.connections i
    if bufferSize = 0 then (none, t)
    else if c.rxBuffer.length ≤ c.rxReadPos then (some [], t)
    else
      let available := min (c.rxBuffer.length - c.rxReadPos) bufferSize
      let bytes := (c.rxBuffer.drop c.rxReadPos).take available
      let pos := c.rxReadPos + available
      if c.rxBuffer.length ≤ pos then
        (some bytes, t.set i { c with rxBuffer := [], rxReadPos := 0, rxReady := false })
      else (some bytes, t.set i { c with rxReadPos := pos })

/-! ## Received segments -/

def tcpPassiveOpen (t : Tcp) (p : TcpSegment) (seq : UInt32) (sent : Bool) : Tcp :=
  match t.firstFree with
  | none => t
  | some i =>
    let c : TcpConnection :=
      { used := true, passive := true, state := .synRcvd, remoteIp := p.srcIp, remotePort := p.srcPort,
        localPort := p.dstPort, seqNum := seq, remoteSeq := p.seq, ackNum := p.seq + 1, id := t.nextId }
    let t := { t with nextId := t.nextId + 1 }
    if !sent then t.set i {} else t.set i { c with seqNum := seq + 1 }

/-- The state switch of `tcp_handle_ipv4`, on the entry that the segment is for. -/
def tcpHandleState (c : TcpConnection) (p : TcpSegment) : TcpConnection :=
  match c.state with
  | .synSent =>
    if p.has tcpFlagSyn && p.has tcpFlagAck && p.ack == c.seqNum then
      { c with state := .established, ackNum := p.seq + 1, remoteSeq := p.seq + 1, remoteAck := p.ack,
               remoteWindow := p.window }
    else if p.has tcpFlagRst && tcpAckValid c p.ack then {}
    else c
  | .synRcvd =>
    if p.has tcpFlagRst then {}
    else if p.has tcpFlagAck && p.ack == c.seqNum && p.seq == c.ackNum then
      { c with state := .established, remoteAck := p.ack, remoteWindow := p.window }
    else c
  | .established =>
    if p.has tcpFlagRst then
      if p.seq == c.ackNum || tcpAckValid c p.ack then {} else c
    else if p.has tcpFlagAck && !tcpAckValid c p.ack then c
    else if p.seq != c.ackNum then c
    else if p.has tcpFlagFin then
      { c with state := .closeWait, ackNum := p.seq + 1, remoteSeq := p.seq + 1 }
    else if 0 < p.data.length ∧ p.data.length ≤ 8192 - c.rxBuffer.length then
      { c with rxBuffer := c.rxBuffer ++ p.data.map fun b => (c.id, b), rxReady := true,
               ackNum := p.seq + UInt32.ofNat p.data.length, remoteSeq := p.seq + UInt32.ofNat p.data.length }
    else c
  | .finWait1 =>
    let c := if p.has tcpFlagAck && p.ack == c.seqNum then { c with state := .finWait2 } else c
    if p.has tcpFlagFin && p.seq == c.ackNum then {} else c
  | .finWait2 => if p.has tcpFlagFin && p.seq == c.ackNum then {} else c
  | .lastAck => if p.has tcpFlagAck && p.ack == c.seqNum then {} else c
  | _ => c

/-! ## Received packets -/

def ipGet16 (d : List UInt8) (i : Nat) : Nat := 256 * (d.getD i 0).toNat + (d.getD (i + 1) 0).toNat

def ipGet32 (d : List UInt8) (i : Nat) : UInt32 :=
  UInt32.ofNat (65536 * ipGet16 d i + ipGet16 d (i + 2))

def ipSum : List UInt8 → Nat
  | [] => 0
  | [a] => 256 * a.toNat
  | a :: b :: rest => 256 * a.toNat + b.toNat + ipSum rest

/-- The end of `ip_checksum` and `tcp_checksum`.  A sum of less than 32 bits has no carry left after
four rounds. -/
def ipFold (sum : Nat) : Nat := 0xFFFF - (fun s => s % 0x10000 + s / 0x10000)^[4] sum

def ipChecksum (d : List UInt8) : Nat := ipFold (ipSum d)

/-- `tcp_checksum`; the two addresses follow each other in the header. -/
def tcpChecksum (addresses segment : List UInt8) : Nat :=
  ipFold (ipSum addresses + 6 + segment.length + ipSum segment)

/-- The checks at the start of `tcp_handle_ipv4`. -/
def tcpParse (localIp : UInt32) (packet : List UInt8) : Option TcpSegment :=
  let ip := packet.drop 14
  let version := (ip.getD 0 0).toNat
  let total := ipGet16 ip 2
  let tcp := (ip.drop 20).take (total - 20)
  let offset := (tcp.getD 12 0).toNat / 16
  if packet.length < 54 then none
  else if version ≠ 0x45 ∨ ip.getD 9 0 ≠ 6 then none
  else if total < 40 ∨ packet.length < total + 14 then none
  else if ipChecksum (ip.take 20) ≠ 0 ∨ ipGet16 ip 6 % 0x4000 ≠ 0 then none
  else if ipGet32 ip 16 ≠ localIp then none
  else if tcpChecksum ((ip.drop 12).take 8) tcp ≠ 0 then none
  else if offset < 5 ∨ total - 20 < offset * 4 then none
  else
    some { srcIp := ipGet32 ip 12, srcPort := UInt16.ofNat (ipGet16 tcp 0), dstPort := UInt16.ofNat (ipGet16 tcp 2),
           seq := ipGet32 tcp 4, ack := ipGet32 tcp 8, flags := tcp.getD 13 0, window := UInt16.ofNat (ipGet16 tcp 14),
           data := tcp.drop (offset * 4) }

def tcpLookup (t : Tcp) (p : TcpSegment) : Option TcpSlot :=
  (List.finRange 4).find? fun i =>
    let c := t.connections i
    c.used && c.localPort == p.dstPort && c.remotePort == p.srcPort && c.remoteIp == p.srcIp

/-- `tcp_handle_ipv4`, from the search for the connection on -/
def tcpHandleSegment (t : Tcp) (p : TcpSegment) (seq : UInt32) (sent : Bool) : Tcp :=
  match tcpLookup t p with
  | some i => t.set i (tcpHandleState (t.connections i) p)
  | none =>
    if p.has tcpFlagSyn && !p.has tcpFlagAck && t.listeners.contains p.dstPort then tcpPassiveOpen t p seq sent
    else t

def tcpHandleIpv4 (localIp : UInt32) (t : Tcp) (packet : List UInt8) (seq : UInt32) (sent : Bool) :
    Tcp :=
  match tcpParse localIp packet with
  | some p => tcpHandleSegment t p seq sent
  | none => t

/-! ## One step -/

inductive TcpAction
  | listen (port : UInt16)
  | accept (port : UInt16)
  | connect (remoteIp : UInt32) (remotePort localPort : UInt16) (seq : UInt32) (sent : Bool)
  | close (handle : Int)
  | send (handle : Int) (data : List UInt8) (sentBytes : Nat)
  | recv (handle : Int) (bufferSize : Nat)
  | deliver (localIp : UInt32) (packet : List UInt8) (seq : UInt32) (sent : Bool)

def tcpStep (t : Tcp) : TcpAction → Tcp
  | .listen port => (tcpListenPort t port).2
  | .accept port => ((tcpAcceptReady t port).map Prod.snd).getD t
  | .connect remoteIp remotePort localPort seq sent =>
    (tcpConnect t remoteIp remotePort localPort seq sent).2
  | .close handle => tcpClose t handle
  | .send handle data sentBytes => (tcpSend t handle data sentBytes).2
  | .recv handle bufferSize => (tcpRecv t handle bufferSize).2
  | .deliver localIp packet seq sent => tcpHandleIpv4 localIp t packet seq sent

end Monios.Model

/-!
# Segments that are sent

`tcp_send_segment` of `kernel/net/tcp.c` up to `net_send_ipv4_packet`.  A null pointer for the data
sends zeros, which a list of zeros does as well; the local address is there.
-/

namespace Monios.Model

def tcpMaxSegmentSize : Nat := 1460

def tcpWindowSize : UInt16 := 65535

def ipPut16 (value : UInt16) : List UInt8 := [(value >>> 8).toUInt8, value.toUInt8]

def ipPut32 (value : UInt32) : List UInt8 :=
  [(value >>> 24).toUInt8, (value >>> 16).toUInt8, (value >>> 8).toUInt8, value.toUInt8]

/-- The arguments of `tcp_send_segment`, with the local address.  `data_len` has 16 bits. -/
structure TcpOutput where
  srcIp : UInt32
  dstIp : UInt32
  srcPort : UInt16
  dstPort : UInt16
  seq : UInt32
  ack : UInt32
  flags : UInt8
  data : List UInt8
  data_lt : data.length < 2 ^ 16

namespace TcpOutput

/-- The two addresses as `tcp_checksum` sums them up. -/
def addresses (o : TcpOutput) : List UInt8 := ipPut32 o.srcIp ++ ipPut32 o.dstIp

def headerFields (o : TcpOutput) : List UInt8 :=
  ipPut16 o.srcPort ++ ipPut16 o.dstPort ++ ipPut32 o.seq ++ ipPut32 o.ack ++ [(5 : UInt8) <<< 4, o.flags] ++ ipPut16 tcpWindowSize

def segment (o : TcpOutput) (checksum : UInt16) : List UInt8 :=
  o.headerFields ++ ipPut16 checksum ++ [0, 0] ++ o.data

end TcpOutput

/-- What comes out of `tcp_send_segment`. -/
inductive TcpSent
  | sent (segment : List UInt8)
  | refused
  /-- `memcpy` writes behind the end of `tcp` -/
  | overrun
  deriving DecidableEq

/-- `tcp_send_segment`.  `total_len` has 16 bits as well. -/
def tcpSendSegment (o : TcpOutput) : TcpSent :=
  let totalLen := (20 + o.data.length) % 2 ^ 16
  if totalLen > 20 + tcpMaxSegmentSize then .refused
  else if o.data.length > tcpMaxSegmentSize then .overrun
  else .sent (o.segment (UInt16.ofNat (tcpChecksum o.addresses (o.segment 0))))

end Monios.Model
