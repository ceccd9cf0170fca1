import Mathlib.Algebra.Order.Ring.Int
import Mathlib.Data.List.FinRange

/-!
# The packet filter

`kernel/net/firewall.c`: the table of rules, `firewall_add_rule` and `firewall_remove_rule`, and the
verdict on a packet.  The listing of the rules as text, which nothing reads back, is left out.
-/

set_option autoImplicit false

namespace Monios.Model.Firewall

abbrev Ip := Fin 4 → UInt8

def fwProtoAny : UInt8 := 0
def fwDirIn : UInt8 := 0
def fwDirOut : UInt8 := 1
def fwActionAllow : UInt8 := 0
def fwActionDeny : UInt8 := 1

/-- `fw_rule_t`; the defaults are what `memset` leaves. -/
structure FwRule where
  used : Bool := false
  direction : UInt8 := 0
  action : UInt8 := 0
  protocol : UInt8 := 0
  srcIp : Ip := fun _ => 0
  srcMask : Ip := fun _ => 0
  dstIp : Ip := fun _ => 0
  dstMask : Ip := fun _ => 0
  srcPort : UInt16 := 0
  dstPort : UInt16 := 0

structure Packet where
  protocol : UInt8
  srcIp : Ip
  dstIp : Ip
  srcPort : UInt16
  dstPort : UInt16

/-- The variables of `firewall.c`; the defaults are what `firewall_init` sets.  `FW_MAX_RULES` is
32. -/
structure FwState where
  rules : Fin 32 → FwRule := fun _ => {}
  enabled : Bool := false
  defaultInbound : Bool := true
  defaultOutbound : Bool := true
  droppedIn : UInt32 := 0
  droppedOut : UInt32 := 0

/-! ## Verdicts -/

/-- `fw_ip_match`; a mask of zeros is every address. -/
def fwIpMatch (pktIp ruleIp mask : Ip) : Bool :=
  (List.finRange 4).all (fun i => mask i == 0) || (List.finRange 4).all fun i => pktIp i &&& mask i == ruleIp i &&& mask i

def fwPortMatch (pktPort rulePort : UInt16) : Bool := rulePort == 0 || pktPort == rulePort

def fwRuleApplies (r : FwRule) (p : Packet) : Bool :=
  (r.protocol == fwProtoAny || r.protocol == p.protocol) && fwIpMatch p.srcIp r.srcIp r.srcMask &&
    fwIpMatch p.dstIp r.dstIp r.dstMask && fwPortMatch p.srcPort r.srcPort && fwPortMatch p.dstPort r.dstPort

def FwState.defaultAllow (fw : FwState) (direction : UInt8) : Bool :=
  if direction = fwDirIn then fw.defaultInbound else fw.defaultOutbound

/-- `fw_evaluate`: the first rule of the table that is in use, has the direction and applies
decides. -/
def fwEvaluate (fw : FwState) (direction : UInt8) (p : Packet) : Bool :=
  if fw.enabled then
    match (List.finRange 32).find? fun i =>
        (fw.rules i).used && (fw.rules i).direction == direction && fwRuleApplies (fw.rules i) p with
    | some i => (fw.rules i).action == fwActionAllow
    | none => fw.defaultAllow direction
  else true

def firewallCheckInbound (fw : FwState) (p : Packet) : Bool × FwState :=
  let allow := fwEvaluate fw fwDirIn p
  (allow, if allow then fw else { fw with droppedIn := fw.droppedIn + 1 })

def firewallCheckOutbound (fw : FwState) (p : Packet) : Bool × FwState :=
  let allow := fwEvaluate fw fwDirOut p
  (allow, if allow then fw else { fw with droppedOut := fw.droppedOut + 1 })

/-! ## Rules -/

/-- The arguments of `firewall_add_rule`; an address or a mask may be `NULL`. -/
structure RuleArgs where
  direction : UInt8
  action : UInt8
  protocol : UInt8
  srcIp : Option Ip := none
  srcMask : Option Ip := none
  dstIp : Option Ip := none
  dstMask : Option Ip := none
  srcPort : UInt16 := 0
  dstPort : UInt16 := 0

/-- The rule that `firewall_add_rule` writes. -/
def RuleArgs.rule (a : RuleArgs) : FwRule where
  used := true
  direction := a.direction
  action := a.action
  protocol := a.protocol
  srcIp := a.srcIp.getD fun _ => 0
  srcMask := a.srcMask.getD fun _ => 0
  dstIp := a.dstIp.getD fun _ => 0
  dstMask := a.dstMask.getD fun _ => 0
  srcPort := a.srcPort
  dstPort := a.dstPort

/-- The slot that `firewall_add_rule` takes: the first one that is not in use. -/
def FwState.freeSlot (fw : FwState) : Option (Fin 32) :=
  (List.finRange 32).find? fun i => !(fw.rules i).used

/-- `firewall_add_rule`, with the slot of the rule as its answer, or -1 when the table is full. -/
def firewallAddRule (fw : FwState) (a : RuleArgs) : Int × FwState :=
  match fw.freeSlot with
  | some i => (i.val, { fw with rules := Function.update fw.rules i a.rule })
  | none => (-1, fw)

def firewallRemoveRule (fw : FwState) (id : Int) : Bool × FwState :=
  if h : 0 ≤ id ∧ id < 32 then
    let i : Fin 32 := ⟨id.toNat, by omega⟩
    if (fw.rules i).used then
      (true, { fw with rules := Function.update fw.rules i { fw.rules i with used := false } })
    else (false, fw)
  else (false, fw)

def firewallSetEnabled (fw : FwState) (enabled : Bool) : FwState := { fw with enabled := enabled }

def firewallSetDefault (fw : FwState) (inboundAllow outboundAllow : Bool) : FwState :=
  { fw with defaultInbound := inboundAllow, defaultOutbound := outboundAllow }

/-! ## Histories -/

inductive Op
  | addRule (a : RuleArgs)
  | removeRule (id : Int)
  | setEnabled (enabled : Bool)
  | setDefault (inboundAllow outboundAllow : Bool)
  | checkInbound (p : Packet)
  | checkOutbound (p : Packet)

def firewallStep (fw : FwState) : Op → FwState
  | .addRule a => (firewallAddRule fw a).2
  | .removeRule id => (firewallRemoveRule fw id).2
  | .setEnabled enabled => firewallSetEnabled fw enabled
  | .setDefault inboundAllow outboundAllow => firewallSetDefault fw inboundAllow outboundAllow
  | .checkInbound p => (firewallCheckInbound fw p).2
  | .checkOutbound p => (firewallCheckOutbound fw p).2

end Monios.Model.Firewall
