import Mathlib.Algebra.Order.Ring.Int
import Mathlib.Data.List.Basic

/-!
# The DHCP client

`dhcp_handle_packet`, `dhcp_start_discovery` and `dhcp_tick` of `kernel/net/dhcp.c`, with what they
build and parse.

The variables of the file are the fields of a `Client`.  `dhcp_start_discovery` waits for replies
while `net_update` hands packets to `dhcp_handle_packet` and calls `dhcp_tick`, which may start a
discovery within the waiting one.  A discovery is therefore cut at its two waits: a `Machine` is the
client with the waits that have not ended, the innermost one first, and its steps are the calls from
outside and the ends of the innermost wait.  A wait may end at any time, since nothing says how long
its loops take.

What is sent and applied are the effects of a step.  The clock, the time stamp counter and whether
the card takes a frame are answers from outside.  A datagram is the list of its bytes, fewer than
65536; a call with a null pointer is left out.
-/

set_option autoImplicit false

namespace Monios.Model.Dhcp

/-! ## Constants and data -/

/-- `DHCP_MSG_DISCOVER` and the other message types -/
def dhcpMsgDiscover : UInt8 := 1

def dhcpMsgOffer : UInt8 := 2

def dhcpMsgRequest : UInt8 := 3

def dhcpMsgAck : UInt8 := 5

def dhcpMsgNak : UInt8 := 6

def dhcpMagicCookie : UInt32 := 0x63825363

def dhcpMinPacket : Nat := 240

def dhcpDnsMaxServers : Nat := 4

def dhcpRetryAttempts : Nat := 3

structure Ip where
  a : UInt8 := 0
  b : UInt8 := 0
  c : UInt8 := 0
  d : UInt8 := 0
deriving DecidableEq

def dhcpIpZero (ip : Ip) : Bool := ip.a == 0 && ip.b == 0 && ip.c == 0 && ip.d == 0

def Ip.bytes (ip : Ip) : List UInt8 := [ip.a, ip.b, ip.c, ip.d]

def ipToText (ip : Ip) : String := ".".intercalate (ip.bytes.map fun b => toString b.toNat)

/-- `dhcp_lease_t`; `dns_count` is the length of `dns`. -/
structure DhcpLease where
  ip : Ip := {}
  netmask : Ip := {}
  gateway : Ip := {}
  dns : List Ip := []
  serverId : Ip := {}
  leaseTime : UInt32 := 0
  renewTime : UInt32 := 0
  rebindTime : UInt32 := 0
  valid : Bool := false
deriving DecidableEq

/-- `dhcp_state_t` -/
inductive DhcpState
  | init
  | selecting
  | requesting
  | bound
  | renewing
  | rebinding
  | stopped
deriving DecidableEq

structure Client where
  state : DhcpState := .init
  xid : UInt32
  gotReply : Bool := false
  replyMsgtype : UInt8 := 0
  offer : DhcpLease := {}
  lease : DhcpLease := {}
  leaseStart : UInt64 := 0
  lastRenewTx : UInt64 := 0
  status : String
deriving DecidableEq

/-- What the client relies on: `timer_hz`, set once the interrupts are on, and `net_hw_mac`. -/
structure Host where
  timerHz : UInt32
  hwMac : List UInt8
  timerHz_ne : timerHz ≠ 0
  length_hwMac : hwMac.length = 6

/-- What the machine answers during a step: `timer_ticks` where the step first asks, the clock and
the counter that `dhcp_make_xid` reads after that, and whether the card takes the frame. -/
structure Answers where
  ticks : UInt64
  xidTicks : UInt64
  tsc : UInt64
  sent : Bool

inductive Effect
  | broadcast (src : Option Ip) (payload : List UInt8)
  | sendTo (dst : Ip) (payload : List UInt8)
  | applyLease (lease : DhcpLease)
deriving DecidableEq

/-! ## Messages -/

def dhcpRead32Be (d : List UInt8) (pos : Nat) : UInt32 :=
  ((d.getD pos 0).toUInt32 <<< 24) ||| ((d.getD (pos + 1) 0).toUInt32 <<< 16) |||
    ((d.getD (pos + 2) 0).toUInt32 <<< 8) ||| (d.getD (pos + 3) 0).toUInt32

def dhcpPut32Be (v : UInt32) : List UInt8 :=
  [(v >>> 24).toUInt8, (v >>> 16).toUInt8, (v >>> 8).toUInt8, v.toUInt8]

/-- `memcpy` of an address out of a datagram -/
def dhcpReadIp (d : List UInt8) (pos : Nat) : Ip :=
  ⟨d.getD pos 0, d.getD (pos + 1) 0, d.getD (pos + 2) 0, d.getD (pos + 3) 0⟩

def dhcpMakeXid (host : Host) (ticks tsc : UInt64) : UInt32 :=
  let mac (i : Nat) : UInt32 := (host.hwMac.getD i 0).toUInt32
  let mix := ticks.toUInt32 ^^^ tsc.toUInt32 ^^^ (tsc >>> 32).toUInt32
  let mix := mix ^^^ (mac 0 <<< 24) ^^^ (mac 1 <<< 16) ^^^ (mac 2 <<< 8) ^^^ mac 3 ^^^ (mac 4 <<< 11) ^^^ (mac 5 <<< 3)
  let mix := mix ^^^ (mix <<< 13)
  let mix := mix ^^^ (mix >>> 17)
  let mix := mix ^^^ (mix <<< 5)
  0x4D4F0000 ^^^ mix

def dhcpIpOption (code : UInt8) : Option Ip → List UInt8
  | none => []
  | some ip => [code, 4] ++ ip.bytes

/-- `dhcp_build_message`: the `len` bytes that are sent -/
def dhcpBuildMessage (host : Host) (xid : UInt32) (msgType : UInt8)
    (ciaddr reqIp serverId : Option Ip) : List UInt8 :=
  [1, 1, 6, 0] ++ dhcpPut32Be xid ++ [0, 0, 0x80, 0x00] ++ (ciaddr.getD {}).bytes ++ List.replicate 12 0 ++
    host.hwMac ++ List.replicate 202 0 ++ dhcpPut32Be dhcpMagicCookie ++
    [53, 1, msgType] ++ dhcpIpOption 50 reqIp ++ dhcpIpOption 54 serverId ++ [55, 4, 1, 3, 6, 51] ++
    [60, 6, 0x6D, 0x6F, 0x6E, 0x69, 0x6F, 0x73] ++ [255]

/-- The options of a message up to the first one that is cut off, as the loops of
`dhcp_parse_options` and of `dhcp_handle_packet` walk over them.  Every round takes a byte at least.
-/
def dhcpOptionsFrom : Nat → List UInt8 → List (UInt8 × List UInt8)
  | 0, _ => []
  | _ + 1, [] => []
  | rounds + 1, code :: rest =>
    if code = 255 then []
    else if code = 0 then dhcpOptionsFrom rounds rest
    else match rest with
      | [] => []
      | olen :: rest =>
        if rest.length < olen.toNat then []
        else (code, rest.take olen.toNat) :: dhcpOptionsFrom rounds (rest.drop olen.toNat)

def dhcpOptions (udp : List UInt8) : List (UInt8 × List UInt8) :=
  dhcpOptionsFrom udp.length (udp.drop 240)

/-- The loop of `dhcp_parse_options` over the addresses of name servers. -/
def dhcpAddDns : List UInt8 → List Ip → List Ip
  | a :: b :: c :: d :: rest, dns => if dns.length <
    dhcpDnsMaxServers then dhcpAddDns rest (dns ++ [⟨a, b, c, d⟩]) else dns
  | _, dns => dns

/-- The `switch` of `dhcp_parse_options`, on the mask and the lease. -/
def dhcpParseOption (parsed : Ip × DhcpLease) (option : UInt8 × List UInt8) : Ip × DhcpLease :=
  let (mask, lease) := parsed
  let (code, value) := option
  if code = 1 then (if 4 ≤ value.length then dhcpReadIp value 0 else mask, lease)
  else if code = 3 then
    (mask, if 4 ≤ value.length ∧ dhcpIpZero lease.gateway then { lease with gateway := dhcpReadIp value 0 } else lease)
  else if code = 6 then (mask, { lease with dns := dhcpAddDns value lease.dns })
  else if code = 54 then (mask, if 4 ≤ value.length then { lease with serverId := dhcpReadIp value 0 } else lease)
  else if code = 51 then (mask, if 4 ≤ value.length then { lease with leaseTime := dhcpRead32Be value 0 } else lease)
  else if code = 58 then (mask, if 4 ≤ value.length then { lease with renewTime := dhcpRead32Be value 0 } else lease)
  else if code = 59 then (mask, if 4 ≤ value.length then { lease with rebindTime := dhcpRead32Be value 0 } else lease)
  else (mask, lease)

def dhcpParseOptions (udp : List UInt8) (lease : DhcpLease) : DhcpLease :=
  let lease := { lease with dns := [], leaseTime := 0, renewTime := 0, rebindTime := 0 }
  let (mask, lease) := (dhcpOptions udp).foldl dhcpParseOption (⟨255, 255, 255, 0⟩, lease)
  let lease := { lease with netmask := mask }
  let lease := if lease.leaseTime = 0 then { lease with leaseTime := 3600 } else lease
  let lease := if lease.renewTime = 0 then { lease with renewTime := lease.leaseTime / 2 } else lease
  if lease.rebindTime = 0 then { lease with rebindTime := (lease.leaseTime.toUInt64 * 7 / 8).toUInt32 } else lease

/-! ## Replies -/

/-- The message type that the loop of `dhcp_handle_packet` finds: that of the last such option. -/
def dhcpMsgType (udp : List UInt8) : UInt8 :=
  (dhcpOptions udp).foldl (fun msgType (code, value) => if code = 53 ∧ 1 ≤ value.length then value.getD 0 0 else msgType) 0

/-- The checks of `dhcp_handle_packet` in front of the message type. -/
def dhcpForUs (host : Host) (xid : UInt32) (udp : List UInt8) : Bool :=
  decide (dhcpMinPacket ≤ udp.length) && udp.getD 0 0 == 2 && udp.getD 1 0 == 1 && udp.getD 2 0 == 6 &&
    dhcpRead32Be udp 4 == xid && (udp.drop 28).take 6 == host.hwMac && dhcpRead32Be udp 236 == dhcpMagicCookie

/-- A server that the options do not name is the one of `siaddr`. -/
def dhcpNamedServer (udp : List UInt8) (lease : DhcpLease) : DhcpLease :=
  if dhcpIpZero lease.serverId then { lease with serverId := dhcpReadIp udp 20 } else lease

/-- The branch of `dhcp_handle_packet` for an OFFER. -/
def dhcpHandleOffer (udp : List UInt8) (g : Client) : Client :=
  let g := { g with offer := { ip := dhcpReadIp udp 16 } }
  if dhcpIpZero g.offer.ip then g
  else
    let offer := dhcpNamedServer udp (dhcpParseOptions udp g.offer)
    { g with
      offer := { offer with valid := true }
      gotReply := true
      replyMsgtype := dhcpMsgOffer
      status := "dhcp: offer " ++ ipToText offer.ip }

/-- The branch of `dhcp_handle_packet` for a NAK. -/
def dhcpHandleNak (g : Client) : Client :=
  { g with gotReply := true, replyMsgtype := dhcpMsgNak, status := "dhcp: nak" }

def dhcpAckedLease (udp : List UInt8) (g : Client) : DhcpLease :=
  let lease := dhcpNamedServer udp (dhcpParseOptions udp { ip := dhcpReadIp udp 16 })
  let lease :=
    if dhcpIpZero lease.gateway ∧ ¬ dhcpIpZero g.offer.gateway then { lease with gateway := g.offer.gateway } else lease
  { lease with valid := true }

/-- The branch of `dhcp_handle_packet` for an ACK. -/
def dhcpHandleAck (ticks : UInt64) (udp : List UInt8) (g : Client) : Client :=
  let lease := dhcpAckedLease udp g
  { g with
    lease := lease
    leaseStart := ticks
    lastRenewTx := ticks
    state := .bound
    gotReply := true
    replyMsgtype := dhcpMsgAck
    status := "dhcp: ack ip " ++ ipToText lease.ip }

def Client.AwaitsAck (g : Client) : Prop :=
  g.state = .requesting ∨ g.state = .renewing ∨ g.state = .rebinding

instance (g : Client) : Decidable g.AwaitsAck := inferInstanceAs (Decidable (_ ∨ _))

def dhcpHandlePacket (host : Host) (ticks : UInt64) (udp : List UInt8) (g : Client) :
    Client × List Effect :=
  if ¬ dhcpForUs host g.xid udp then (g, [])
  else if dhcpMsgType udp = dhcpMsgOffer ∧ g.state = .selecting then (dhcpHandleOffer udp g, [])
  else if (dhcpMsgType udp = dhcpMsgAck ∨ dhcpMsgType udp = dhcpMsgNak) ∧ g.AwaitsAck then
    if dhcpMsgType udp = dhcpMsgNak then (dhcpHandleNak g, [])
    else (dhcpHandleAck ticks udp g, [.applyLease (dhcpAckedLease udp g)])
  else (g, [])

/-! ## Discovery -/

/-- The waits of `dhcp_start_discovery`: in the loop of the DISCOVERs and in that of the REQUESTs,
after so many attempts. -/
inductive Wait
  | offer (attempt : Nat)
  | ack (attempt : Nat)
deriving DecidableEq

inductive Discovery
  | blocked (wait : Wait)
  | returned (result : Bool)
deriving DecidableEq

/-- The end of `dhcp_start_discovery` without a lease. -/
def dhcpNoAck (g : Client) : Client := { g with state := .init, status := "dhcp: no ack" }

def dhcpRequestFrom (host : Host) (sent : Bool) (attempt : Nat) (g : Client) :
    Client × Discovery × List Effect :=
  if attempt < dhcpRetryAttempts then
    let g := { g with gotReply := false, replyMsgtype := 0, status := "dhcp: request(bcast)" }
    let request : Effect := .broadcast none
      (dhcpBuildMessage host g.xid dhcpMsgRequest none (some g.offer.ip) (some g.offer.serverId))
    if sent then (g, .blocked (.ack attempt), [request])
    else (dhcpNoAck { g with status := "dhcp: request tx failed" }, .returned false, [request])
  else (dhcpNoAck g, .returned false, [])

/-- The rest of `dhcp_start_discovery` after the loop of the DISCOVERs. -/
def dhcpAfterOffers (host : Host) (sent : Bool) (g : Client) : Client × Discovery × List Effect :=
  if g.offer.valid then dhcpRequestFrom host sent 0 { g with state := .requesting }
  else ({ g with state := .init, status := "dhcp: no offer" }, .returned false, [])

def dhcpDiscoverFrom (host : Host) (answers : Answers) (attempt : Nat) (g : Client) :
    Client × Discovery × List Effect :=
  if attempt < dhcpRetryAttempts ∧ g.offer.valid = false then
    let g := { g with
      xid := dhcpMakeXid host answers.xidTicks answers.tsc, gotReply := false, status := "dhcp: discover" }
    let discover : Effect := .broadcast none (dhcpBuildMessage host g.xid dhcpMsgDiscover none none none)
    if answers.sent then (g, .blocked (.offer attempt), [discover])
    else
      let (g, discovery, effects) := dhcpAfterOffers host answers.sent { g with status := "dhcp: discover tx failed" }
      (g, discovery, discover :: effects)
  else dhcpAfterOffers host answers.sent g

/-- `dhcp_start_discovery`, to its first wait -/
def dhcpStartDiscovery (host : Host) (answers : Answers) (g : Client) :
    Client × Discovery × List Effect :=
  dhcpDiscoverFrom host answers 0
    { g with offer := { g.offer with valid := false }, state := .selecting, gotReply := false, replyMsgtype := 0 }

/-- `dhcp_start_discovery`, from the end of a wait to the next one -/
def dhcpResume (host : Host) (answers : Answers) (g : Client) :
    Wait → Client × Discovery × List Effect
  | .offer attempt => dhcpDiscoverFrom host answers (attempt + 1) g
  | .ack attempt =>
    if g.replyMsgtype = dhcpMsgAck then (g, .returned true, [])
    else if g.replyMsgtype = dhcpMsgNak then
      (dhcpNoAck { g with status := "dhcp: nak on request" }, .returned false, [])
    else dhcpRequestFrom host answers.sent (attempt + 1) g

/-! ## The timer -/

/-- The seconds of the lease that `dhcp_tick` counts. -/
def dhcpElapsed (host : Host) (now : UInt64) (g : Client) : UInt32 :=
  ((now - g.leaseStart) / host.timerHz.toUInt64).toUInt32

/-- `dhcp_tick`; a discovery that it starts is the second component. -/
def dhcpTick (host : Host) (answers : Answers) (g : Client) :
    Client × Option Discovery × List Effect :=
  if g.state ≠ .bound ∨ g.lease.valid = false then (g, none, [])
  else if host.timerHz = 0 then (g, none, [])
  else
    let now := answers.ticks
    let elapsed := dhcpElapsed host now g
    if elapsed ≥ g.lease.leaseTime then
      let (g, discovery, effects) := dhcpStartDiscovery host answers { g with status := "dhcp: lease expired, rediscover" }
      (g, some discovery, effects)
    else if now - g.lastRenewTx < host.timerHz.toUInt64 * 5 then (g, none, [])
    else if elapsed ≥ g.lease.rebindTime then
      ({ g with state := .rebinding, lastRenewTx := now, status := "dhcp: request(bcast)" }, none,
        [.broadcast (some g.lease.ip) (dhcpBuildMessage host g.xid dhcpMsgRequest (some g.lease.ip) none none)])
    else if elapsed ≥ g.lease.renewTime then
      ({ g with state := .renewing, lastRenewTx := now, status := "dhcp: request(ucast)" }, none,
        [.sendTo g.lease.serverId
          (dhcpBuildMessage host g.xid dhcpMsgRequest (some g.lease.ip) none (some g.lease.serverId))])
    else (g, none, [])

def dhcpInit (host : Host) (ticks tsc : UInt64) : Client := { xid := dhcpMakeXid host ticks tsc, status := "dhcp: ready" }

/-! ## Steps -/

/-- The client, the waits of discoveries that have not returned, and the last time that was read. -/
structure Machine where
  client : Client
  waits : List Wait := []
  now : UInt64

inductive Action
  | start (answers : Answers)
  | tick (answers : Answers)
  | packet (ticks : UInt64) (udp : List UInt8)
  | resume (answers : Answers)

def Action.times : Action → List UInt64
  | .start answers => [answers.xidTicks]
  | .tick answers => [answers.ticks, answers.xidTicks]
  | .packet ticks _ => [ticks]
  | .resume answers => [answers.xidTicks]

def Discovery.onto : Discovery → List Wait → List Wait
  | .blocked wait, waits => wait :: waits
  | .returned _, waits => waits

def dhcpPerform (host : Host) (m : Machine) : Action → Option (Client × List Wait × List Effect)
  | .start answers =>
    let r := dhcpStartDiscovery host answers m.client
    some (r.1, r.2.1.onto m.waits, r.2.2)
  | .tick answers =>
    let r := dhcpTick host answers m.client
    some (r.1, r.2.1.elim m.waits (·.onto m.waits), r.2.2)
  | .packet ticks udp =>
    let r := dhcpHandlePacket host ticks udp m.client
    some (r.1, m.waits, r.2)
  | .resume answers =>
    match m.waits with
    | [] => none
    | wait :: waits =>
      let r := dhcpResume host answers m.client wait
      some (r.1, r.2.1.onto waits, r.2.2)

def dhcpStep (host : Host) (m : Machine) (action : Action) : Option (Machine × List Effect) :=
  if (m.now :: action.times).Pairwise (· ≤ ·) then
    (dhcpPerform host m action).map fun (g, waits, effects) =>
      ({ client := g, waits := waits, now := action.times.getLastD m.now }, effects)
  else none

end Monios.Model.Dhcp
