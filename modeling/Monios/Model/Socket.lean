import Monios.Model.Tcp

/-!
# Sockets

The TCP part of `kernel/net/socket.c`: a table of sockets, each of which names a connection by the
handle that `tcp_connect` or `tcp_accept_ready` returned.

`conn` is the identity of the connection that a socket connected or accepted; it is kept to state
what a socket stands for, and nothing reads it.  Whether names are resolved and segments are sent,
and the initial sequence numbers, come from outside.
-/

set_option autoImplicit false

namespace Monios.Model

/-- `SOCKET_MAX_SOCKETS` -/
abbrev SocketSlot := Fin 16

/-- `socket_entry_t`, without the buffer of a UDP socket.  The defaults are those of a zeroed entry.
-/
structure Socket where
  used : Bool := false
  isTcp : Bool := false
  localPort : UInt16 := 0
  tcpHandle : Int := 0
  conn : Option Nat := none
  deriving DecidableEq, Repr

structure Net where
  sockets : SocketSlot → Socket := fun _ => {}
  /-- `g_next_ephemeral_port` of `socket.c` -/
  nextPort : UInt16 := 49152
  /-- the state of `tcp.c` -/
  tcp : Tcp := {}

def Net.set (s : Net) (i : SocketSlot) (sock : Socket) : Net :=
  { s with sockets := Function.update s.sockets i sock }

/-- `socket_from_handle`; the handle of the entry `i` is `i + 1`. -/
def socketFromHandle (s : Net) (handle : Int) : Option SocketSlot :=
  (List.finRange 16).find? fun i => decide (((i : Nat) : Int) + 1 = handle) && (s.sockets i).used

def tcpSocket (s : Net) (handle : Int) : Option SocketSlot :=
  (socketFromHandle s handle).filter fun i => (s.sockets i).isTcp

def socketPortInUse (s : Net) (port : UInt16) : Bool :=
  (List.finRange 16).any fun i => (s.sockets i).used && (s.sockets i).localPort == port

def socketAllocHandle (s : Net) : Option SocketSlot :=
  (List.finRange 16).find? fun i => !(s.sockets i).used

/-- The loop of `socket_tcp_open` over the ephemeral ports -/
def socketEphemeralPort : Nat → Net → UInt16 × Net
  | 0, s => (0, s)
  | rounds + 1, s =>
    let port := s.nextPort
    let next := if port + 1 < 49152 then 49152 else port + 1
    let s := { s with nextPort := next }
    if !socketPortInUse s port then (port, s) else socketEphemeralPort rounds s

/-- `socket_tcp_open`; `none` is `-1`. -/
def socketTcpOpen (s : Net) (localPort : UInt16) : Option SocketSlot × Net :=
  let r := if localPort = 0 then socketEphemeralPort 1000 s else (localPort, s)
  if r.1 = 0 ∨ socketPortInUse r.2 r.1 then (none, r.2)
  else
    match socketAllocHandle r.2 with
    | none => (none, r.2)
    | some i =>
      (some i, r.2.set i { used := true, isTcp := true, localPort := r.1, tcpHandle := -1 })

/-- `socket_tcp_connect`; `dst` is what `net_resolve_ipv4` answers. -/
def socketTcpConnect (s : Net) (handle : Int) (dst : Option UInt32) (dstPort : UInt16)
    (seq : UInt32) (sent : Bool) : Net :=
  match tcpSocket s handle, dst with
  | some i, some ip =>
    if dstPort = 0 then s
    else
      let r := tcpConnect s.tcp ip dstPort (s.sockets i).localPort seq sent
      match r.1 with
      | none => { s with tcp := r.2 }
      | some k =>
        { s with tcp := r.2 }.set i
          { s.sockets i with tcpHandle := ((k : Nat) : Int) + 1, conn := some (r.2.connections k).id }
  | _, _ => s

def socketTcpListen (s : Net) (handle : Int) : Net :=
  match tcpSocket s handle with
  | some i => { s with tcp := (tcpListenPort s.tcp (s.sockets i).localPort).2 }
  | none => s

def socketTcpAccept (s : Net) (handle : Int) : Net :=
  match tcpSocket s handle with
  | none => s
  | some i =>
    match tcpAcceptReady s.tcp (s.sockets i).localPort with
    | none => s
    | some (k, tcp) =>
      match socketAllocHandle s with
      | none => { s with tcp := tcp }
      | some client =>
        { s with tcp := tcp }.set client
          { used := true, isTcp := true, localPort := (s.sockets i).localPort, tcpHandle := ((k : Nat) : Int) + 1,
            conn := some (s.tcp.connections k).id }

def socketTcpSend (s : Net) (handle : Int) (data : List UInt8) (sentBytes : Nat) : Int × Net :=
  match tcpSocket s handle with
  | none => (-1, s)
  | some i =>
    if (s.sockets i).tcpHandle < 0 then (-1, s)
    else
      let r := tcpSend s.tcp (s.sockets i).tcpHandle data sentBytes
      (r.1, { s with tcp := r.2 })

def socketTcpRecv (s : Net) (handle : Int) (bufferSize : Nat) : Option (List (Nat × UInt8)) × Net :=
  match tcpSocket s handle with
  | none => (none, s)
  | some i =>
    if (s.sockets i).tcpHandle < 0 then (none, s)
    else
      let r := tcpRecv s.tcp (s.sockets i).tcpHandle bufferSize
      (r.1, { s with tcp := r.2 })

def socketClose (s : Net) (handle : Int) : Net :=
  match socketFromHandle s handle with
  | none => s
  | some i =>
    let sock := s.sockets i
    let tcp := if sock.isTcp ∧ 0 ≤ sock.tcpHandle then tcpClose s.tcp sock.tcpHandle else s.tcp
    { s with tcp := tcp }.set i {}

/-! ## One step -/

inductive NetAction
  | openTcp (localPort : UInt16)
  | connect (handle : Int) (dst : Option UInt32) (dstPort : UInt16) (seq : UInt32) (sent : Bool)
  | listen (handle : Int)
  | accept (handle : Int)
  | send (handle : Int) (data : List UInt8) (sentBytes : Nat)
  | recv (handle : Int) (bufferSize : Nat)
  | close (handle : Int)
  | deliver (localIp : UInt32) (packet : List UInt8) (seq : UInt32) (sent : Bool)

def netStep (s : Net) : NetAction → Net
  | .openTcp localPort => (socketTcpOpen s localPort).2
  | .connect handle dst dstPort seq sent => socketTcpConnect s handle dst dstPort seq sent
  | .listen handle => socketTcpListen s handle
  | .accept handle => socketTcpAccept s handle
  | .send handle data sentBytes => (socketTcpSend s handle data sentBytes).2
  | .recv handle bufferSize => (socketTcpRecv s handle bufferSize).2
  | .close handle => socketClose s handle
  | .deliver localIp packet seq sent =>
    { s with tcp := tcpHandleIpv4 localIp s.tcp packet seq sent }

end Monios.Model
