import Monios.Library.Run
import Monios.Model.Dhcp

/-!
# The end of a DHCP lease

What is asked of the client (`LeaseSafe`): a tick after the end of the lease leads from the states
in which the address is used back to the discovery, a tick after T2 broadcasts, a NAK ends the use
of the address, and an accepted ACK carries an address, which is the offered one when it answers the
first REQUEST.
-/

set_option autoImplicit false

namespace Monios.Analysis.DhcpLease

open Monios.Library Monios.Model.Dhcp

variable {host : Host} {g g' : Client} {m m' : Machine}

variable {answers : Answers} {now : UInt64} {action : Action} {effects : List Effect}

def Held (g : Client) : Prop := g.state = .bound ∨ g.state = .renewing ∨ g.state = .rebinding

def Renews (g : Client) : Prop := g.state = .renewing ∨ g.state = .rebinding

def leaseAge (host : Host) (now : UInt64) (g : Client) : Nat :=
  (now.toNat - g.leaseStart.toNat) / host.timerHz.toNat

def RecentlySent (host : Host) (now : UInt64) (g : Client) : Prop :=
  now.toNat - g.lastRenewTx.toNat < 5 * host.timerHz.toNat

def Rediscovers (host : Host) (effects : List Effect) : Prop :=
  ∃ xid, .broadcast none (dhcpBuildMessage host xid dhcpMsgDiscover none none none) ∈ effects

def RequestsFromAny (host : Host) (g : Client) (effects : List Effect) : Prop :=
  .broadcast (some g.lease.ip) (dhcpBuildMessage host g.xid dhcpMsgRequest (some g.lease.ip) none none) ∈ effects

def TickSafe (host : Host) (now : UInt64) (g g' : Client) (effects : List Effect) : Prop :=
  Held g → (g.lease.leaseTime.toNat ≤ leaseAge host now g → ¬ Held g' ∧ Rediscovers host effects) ∧
    (g.lease.rebindTime.toNat ≤ leaseAge host now g → leaseAge host now g < g.lease.leaseTime.toNat →
      RequestsFromAny host g effects ∨ RecentlySent host now g)

/-- A NAK ends the use of the address, and a lease that is taken over has an address, the offered
one at first. -/
def PacketSafe (host : Host) (udp : List UInt8) (g g' : Client) (effects : List Effect) : Prop :=
  (dhcpForUs host g.xid udp = true → dhcpMsgType udp = dhcpMsgNak → Renews g → ¬ Held g') ∧
    ∀ lease, .applyLease lease ∈ effects → dhcpIpZero lease.ip = false ∧ (g.state = .requesting → lease.ip = g.offer.ip)

def ActionSafe (host : Host) (g g' : Client) (effects : List Effect) : Action → Prop
  | .tick answers => TickSafe host answers.ticks g g' effects
  | .packet _ udp => PacketSafe host udp g g' effects
  | _ => True

def LeaseSafe (host : Host) (m : Machine) (action : Action) : Prop :=
  ∀ m' effects, dhcpStep host m action = some (m', effects) → ActionSafe host m.client m'.client effects action

/-- The steps that meet it: a tick finds the client `BOUND` when the lease has come to T2 or to its
end, before the seconds wrap around; no NAK comes to a renewal, and an ACK carries an address, which
is the offered one at first. -/
def Answered (host : Host) (m : Machine) : Action → Prop
  | .tick answers =>
    Held m.client → (m.client.lease.leaseTime.toNat ≤ leaseAge host answers.ticks m.client →
        m.client.state = .bound ∧ m.client.lease.leaseTime.toNat ≤ leaseAge host answers.ticks m.client % 2 ^ 32) ∧
      (m.client.lease.rebindTime.toNat ≤ leaseAge host answers.ticks m.client →
        leaseAge host answers.ticks m.client < m.client.lease.leaseTime.toNat →
        m.client.state = .bound ∨ RecentlySent host answers.ticks m.client)
  | .packet _ udp =>
    dhcpForUs host m.client.xid udp = true → (dhcpMsgType udp = dhcpMsgNak → ¬ Renews m.client) ∧
      (dhcpMsgType udp = dhcpMsgAck → m.client.AwaitsAck → dhcpIpZero (dhcpReadIp udp 16) = false ∧
          (m.client.state = .requesting → dhcpReadIp udp 16 = m.client.offer.ip))
  | _ => True

def dhcpNext (host : Host) (m : Machine) (action : Action) : Option Machine :=
  (dhcpStep host m action).map Prod.fst

def dhcpBoot (host : Host) (ticks tsc : UInt64) : Machine :=
  { client := dhcpInit host ticks tsc, now := ticks }

structure SameLease (g g' : Client) : Prop where
  lease : g'.lease = g.lease
  start : g'.leaseStart = g.leaseStart
  sent : g'.lastRenewTx = g.lastRenewTx

def Discovers (g g' : Client) : Prop :=
  SameLease g g' ∧ (g'.state = g.state ∨ g'.state = .requesting ∨ g'.state = .init)

/-- The state before a discovery. -/
theorem discovers_refl : Discovers g g := ⟨⟨rfl, rfl, rfl⟩, Or.inl rfl⟩

/-- The requests keep the lease. -/
theorem dhcpRequestFrom_discovers (host : Host) (sent : Bool) (attempt : Nat) :
    Discovers g (dhcpRequestFrom host sent attempt g).1 := by
  unfold dhcpRequestFrom
  split
  · split
    · exact ⟨⟨rfl, rfl, rfl⟩, Or.inl rfl⟩
    · exact ⟨⟨rfl, rfl, rfl⟩, Or.inr (Or.inr rfl)⟩
  · exact ⟨⟨rfl, rfl, rfl⟩, Or.inr (Or.inr rfl)⟩

/-- The choice of an offer keeps the lease. -/
theorem dhcpAfterOffers_discovers (host : Host) (sent : Bool) :
    Discovers g (dhcpAfterOffers host sent g).1 := by
  unfold dhcpAfterOffers
  split
  · obtain ⟨hsame, hstate⟩ := dhcpRequestFrom_discovers host (g := { g with state := .requesting }) sent 0
    refine ⟨⟨hsame.lease, hsame.start, hsame.sent⟩, Or.inr ?_⟩
    rcases hstate with hstate | hstate
    · exact Or.inl hstate
    · exact hstate
  · exact ⟨⟨rfl, rfl, rfl⟩, Or.inr (Or.inr rfl)⟩

/-- The discovery keeps the lease. -/
theorem dhcpDiscoverFrom_discovers (host : Host) (answers : Answers) (attempt : Nat) :
    Discovers g (dhcpDiscoverFrom host answers attempt g).1 := by
  unfold dhcpDiscoverFrom
  split
  · dsimp only
    split
    · exact ⟨⟨rfl, rfl, rfl⟩, Or.inl rfl⟩
    · obtain ⟨hsame, hstate⟩ := dhcpAfterOffers_discovers host answers.sent (g := { g with
        xid := dhcpMakeXid host answers.xidTicks answers.tsc, gotReply := false, status := "dhcp: discover tx failed" })
      exact ⟨⟨hsame.lease, hsame.start, hsame.sent⟩, hstate⟩
  · exact dhcpAfterOffers_discovers _ _

/-- A discovery gives the address up and sends DISCOVER. -/
theorem dhcpStartDiscovery_spec (host : Host) (answers : Answers) :
    SameLease g (dhcpStartDiscovery host answers g).1 ∧
      ¬ Held (dhcpStartDiscovery host answers g).1 ∧
      Rediscovers host (dhcpStartDiscovery host answers g).2.2 := by
  obtain ⟨hsame, hstate⟩ := dhcpDiscoverFrom_discovers host answers 0
    (g := { g with offer := { g.offer with valid := false }, state := .selecting, gotReply := false, replyMsgtype := 0 })
  refine ⟨⟨hsame.lease, hsame.start, hsame.sent⟩, ?_, ?_⟩
  · unfold Held dhcpStartDiscovery
    rcases hstate with hstate | hstate | hstate
    all_goals
      rw [hstate]
      simp
  · refine ⟨dhcpMakeXid host answers.xidTicks answers.tsc, ?_⟩
    unfold dhcpStartDiscovery dhcpDiscoverFrom
    rw [if_pos ⟨by decide, rfl⟩]
    dsimp only
    split
    · exact List.mem_singleton_self _
    · exact List.mem_cons_self

/-- Every wait of the discovery keeps the lease. -/
theorem dhcpResume_discovers (answers : Answers) (wait : Wait) :
    Discovers g (dhcpResume host answers g wait).1 := by
  cases wait with
  | offer attempt => exact dhcpDiscoverFrom_discovers _ answers _
  | ack attempt =>
    unfold dhcpResume
    dsimp only
    split
    · exact discovers_refl
    split
    · exact ⟨⟨rfl, rfl, rfl⟩, Or.inr (Or.inr rfl)⟩
    · exact dhcpRequestFrom_discovers _ _ _

/-- The time since the start of the lease, to 32 bits. -/
theorem dhcpElapsed_toNat (host : Host) (h : g.leaseStart ≤ now) :
    (dhcpElapsed host now g).toNat = leaseAge host now g % 2 ^ 32 := by
  unfold dhcpElapsed leaseAge
  rw [UInt64.toNat_toUInt32, UInt64.toNat_div, UInt64.toNat_sub_of_le _ _ h, UInt32.toNat_toUInt64]

/-- The guard against sending twice. -/
theorem recentlySent_iff (h : g.lastRenewTx ≤ now) :
    now - g.lastRenewTx < host.timerHz.toUInt64 * 5 ↔ RecentlySent host now g := by
  have hhz := host.timerHz.toNat_lt
  rw [UInt64.lt_iff_toNat_lt, UInt64.toNat_sub_of_le _ _ h, UInt64.toNat_mul, UInt32.toNat_toUInt64]
  unfold RecentlySent
  change _ < host.timerHz.toNat * 5 % 2 ^ 64 ↔ _
  omega

/-- Outside BOUND a tick does nothing. -/
theorem dhcpTick_of_not_bound (h : g.state ≠ .bound) : dhcpTick host answers g = (g, none, []) :=
  if_pos (Or.inl h)

/-- A tick at the end of the lease gives the address up. -/
theorem dhcpTick_expired (hbound : g.state = .bound) (hvalid : g.lease.valid = true)
    (hover : g.lease.leaseTime ≤ dhcpElapsed host answers.ticks g) :
    SameLease g (dhcpTick host answers g).1 ∧ ¬ Held (dhcpTick host answers g).1 ∧
      Rediscovers host (dhcpTick host answers g).2.2 := by
  unfold dhcpTick
  rw [if_neg (by simp [hbound, hvalid]), if_neg host.timerHz_ne]
  dsimp only
  rw [if_pos hover]
  obtain ⟨hsame, hend⟩ := dhcpStartDiscovery_spec host answers
    (g := { g with status := "dhcp: lease expired, rediscover" })
  exact ⟨⟨hsame.lease, hsame.start, hsame.sent⟩, hend⟩

/-- A tick within the lease keeps the address. -/
theorem dhcpTick_running (hbound : g.state = .bound) (hvalid : g.lease.valid = true)
    (hover : ¬ g.lease.leaseTime ≤ dhcpElapsed host answers.ticks g) :
    Held (dhcpTick host answers g).1 ∧ (dhcpTick host answers g).1.lease = g.lease ∧
      (dhcpTick host answers g).1.leaseStart = g.leaseStart ∧
      ((dhcpTick host answers g).1.lastRenewTx = g.lastRenewTx ∨
        (dhcpTick host answers g).1.lastRenewTx = answers.ticks) ∧
      (g.lease.rebindTime ≤ dhcpElapsed host answers.ticks g →
        ¬ answers.ticks - g.lastRenewTx < host.timerHz.toUInt64 * 5 →
        RequestsFromAny host g (dhcpTick host answers g).2.2) := by
  unfold dhcpTick
  rw [if_neg (by simp [hbound, hvalid]), if_neg host.timerHz_ne]
  dsimp only
  rw [if_neg hover]
  split
  · next hrecent => exact ⟨Or.inl hbound, rfl, rfl, Or.inl rfl, fun _ hnot => absurd hrecent hnot⟩
  split
  · exact ⟨Or.inr (Or.inr rfl), rfl, rfl, Or.inr rfl, fun _ _ => List.mem_singleton_self _⟩
  · next hbefore =>
    split
    · exact ⟨Or.inr (Or.inl rfl), rfl, rfl, Or.inr rfl, fun hafter => absurd hafter hbefore⟩
    · exact ⟨Or.inl hbound, rfl, rfl, Or.inl rfl, fun hafter => absurd hafter hbefore⟩

structure Leased (now : UInt64) (g : Client) : Prop where
  valid : Held g → g.lease.valid = true
  start : g.leaseStart ≤ now
  sent : g.lastRenewTx ≤ now

/-- The clock goes on. -/
theorem Leased.mono {now now' : UInt64} (h : Leased now g) (hnow : now ≤ now') : Leased now' g :=
  ⟨h.valid, UInt64.le_trans h.start hnow, UInt64.le_trans h.sent hnow⟩

/-- The same lease, held as before. -/
theorem Leased.sameLease (h : Leased now g) (hsame : SameLease g g') (hheld : Held g' → Held g) :
    Leased now g' :=
  ⟨fun hg' => hsame.lease ▸ h.valid (hheld hg'), hsame.start ▸ h.start, hsame.sent ▸ h.sent⟩

/-- A discovery keeps the invariant. -/
theorem Leased.discovers (h : Leased now g) (hd : Discovers g g') : Leased now g' := by
  apply h.sameLease hd.1
  unfold Held
  rcases hd.2 with hstate | hstate | hstate
  all_goals
    rw [hstate]
    simp

/-- A tick keeps the invariant. -/
theorem Leased.tick (host : Host) (h : Leased answers.ticks g) :
    Leased answers.ticks (dhcpTick host answers g).1 := by
  by_cases hbound : g.state = .bound
  · have hvalid := h.valid (Or.inl hbound)
    by_cases hover : g.lease.leaseTime ≤ dhcpElapsed host answers.ticks g
    · obtain ⟨hsame, hend, -⟩ := dhcpTick_expired hbound hvalid hover
      exact h.sameLease hsame fun hheld => absurd hheld hend
    · obtain ⟨-, hlease, hstart, hsent, -⟩ := dhcpTick_running hbound hvalid hover
      refine ⟨fun _ => hlease ▸ hvalid, hstart ▸ h.start, ?_⟩
      rcases hsent with hsent | hsent
      · exact hsent ▸ h.sent
      · exact hsent ▸ UInt64.le_refl _
  · rw [dhcpTick_of_not_bound hbound]
    exact h

/-- When a tick does what the lease asks for. -/
theorem tickSafe_iff (h : Leased answers.ticks m.client) :
    TickSafe host answers.ticks m.client (dhcpTick host answers m.client).1
      (dhcpTick host answers m.client).2.2 ↔
      Answered host m (.tick answers) := by
  unfold TickSafe Answered
  refine forall_congr' fun hheld => ?_
  have hvalid := h.valid hheld
  have hage := dhcpElapsed_toNat host h.start
  by_cases hbound : m.client.state = .bound
  · by_cases hover : m.client.lease.leaseTime ≤ dhcpElapsed host answers.ticks m.client
    · obtain ⟨-, hend⟩ := dhcpTick_expired hbound hvalid hover
      rw [UInt32.le_iff_toNat_le, hage] at hover
      refine ⟨fun _ => ⟨fun _ => ⟨hbound, hover⟩, fun _ _ => Or.inl hbound⟩,
        fun _ => ⟨fun _ => hend, ?_⟩⟩
      intro _ hbefore
      have hmod := Nat.mod_le (leaseAge host answers.ticks m.client) (2 ^ 32)
      omega
    · obtain ⟨hstays, -, -, -, hrequest⟩ := dhcpTick_running hbound hvalid hover
      rw [UInt32.le_iff_toNat_le, hage] at hover hrequest
      rw [recentlySent_iff h.sent] at hrequest
      constructor
      · intro hsafe
        exact ⟨fun hlate => absurd hstays (hsafe.1 hlate).1, fun _ _ => Or.inl hbound⟩
      · intro hcond
        refine ⟨fun hlate => absurd (hcond.1 hlate).2 hover, fun hrebind hbefore => ?_⟩
        by_cases hrecent : RecentlySent host answers.ticks m.client
        · exact Or.inr hrecent
        · have hsmall := m.client.lease.leaseTime.toNat_lt
          rw [Nat.mod_eq_of_lt (by omega)] at hrequest
          exact Or.inl (hrequest hrebind hrecent)
  · rw [dhcpTick_of_not_bound hbound]
    unfold RequestsFromAny
    simp [hheld, hbound]

/-- An option does not touch the address. -/
theorem dhcpParseOption_ip (parsed : Ip × DhcpLease) (option : UInt8 × List UInt8) :
    (dhcpParseOption parsed option).2.ip = parsed.2.ip := by
  unfold dhcpParseOption
  dsimp only
  repeat' split
  all_goals rfl

/-- The options do not touch the address. -/
theorem foldl_dhcpParseOption_ip (options : List (UInt8 × List UInt8)) (parsed : Ip × DhcpLease) :
    (options.foldl dhcpParseOption parsed).2.ip = parsed.2.ip := by
  induction options generalizing parsed with
  | nil => rfl
  | cons option options ih =>
    rw [List.foldl_cons, ih]
    exact dhcpParseOption_ip parsed option

/-- Parsing the options does not touch the address. -/
theorem dhcpParseOptions_ip (udp : List UInt8) (lease : DhcpLease) :
    (dhcpParseOptions udp lease).ip = lease.ip := by
  have hfold := foldl_dhcpParseOption_ip (dhcpOptions udp)
    (⟨255, 255, 255, 0⟩, { lease with dns := [], leaseTime := 0, renewTime := 0, rebindTime := 0 })
  unfold dhcpParseOptions
  dsimp only
  repeat' split
  all_goals exact hfold

/-- The address of a lease is that of the ACK. -/
theorem dhcpAckedLease_ip (udp : List UInt8) (g : Client) :
    (dhcpAckedLease udp g).ip = dhcpReadIp udp 16 := by
  have hparse := dhcpParseOptions_ip udp { ip := dhcpReadIp udp 16 }
  unfold dhcpAckedLease dhcpNamedServer
  dsimp only
  repeat' split
  all_goals exact hparse

/-- What a packet can do. -/
theorem dhcpHandlePacket_cases (host : Host) (ticks : UInt64) (udp : List UInt8) (g : Client) :
    ((dhcpHandlePacket host ticks udp g).2 = [] ∧
      SameLease g (dhcpHandlePacket host ticks udp g).1 ∧
      (dhcpHandlePacket host ticks udp g).1.state = g.state ∧
      ¬ (dhcpForUs host g.xid udp = true ∧ dhcpMsgType udp = dhcpMsgAck ∧ g.AwaitsAck)) ∨
    (dhcpForUs host g.xid udp = true ∧ dhcpMsgType udp = dhcpMsgAck ∧ g.AwaitsAck ∧
      dhcpHandlePacket host ticks udp g =
      (dhcpHandleAck ticks udp g, [.applyLease (dhcpAckedLease udp g)])) := by
  unfold dhcpHandlePacket
  split
  · next hforus => exact Or.inl ⟨rfl, ⟨rfl, rfl, rfl⟩, rfl, fun h => hforus h.1⟩
  split
  · next hoffer =>
    refine Or.inl ⟨rfl, ?_, ?_, fun h => absurd (hoffer.1.symm.trans h.2.1) (by decide)⟩
    all_goals unfold dhcpHandleOffer
    all_goals dsimp only
    all_goals split
    · exact ⟨rfl, rfl, rfl⟩
    · exact ⟨rfl, rfl, rfl⟩
    · rfl
    · rfl
  split
  · next hforus _ hreply =>
    split
    · next hnak => exact Or.inl ⟨rfl, ⟨rfl, rfl, rfl⟩, rfl, fun h => absurd (hnak.symm.trans h.2.1) (by decide)⟩
    · next hnak => exact Or.inr ⟨of_not_not hforus, hreply.1.resolve_right hnak, hreply.2, rfl⟩
  · next hreply => exact Or.inl ⟨rfl, ⟨rfl, rfl, rfl⟩, rfl, fun h => hreply ⟨Or.inl h.2.1, h.2.2⟩⟩

/-- An ACK starts the lease. -/
theorem leased_ack (ticks : UInt64) (udp : List UInt8) (g : Client) :
    Leased ticks (dhcpHandleAck ticks udp g) where
  valid _ := by
    unfold dhcpHandleAck dhcpAckedLease
    rfl
  start := UInt64.le_refl ticks
  sent := UInt64.le_refl ticks

/-- A lease that is renewed is held. -/
theorem Renews.held (h : Renews g) : Held g := Or.inr h

/-- A packet keeps the invariant. -/
theorem Leased.packet (host : Host) {now ticks : UInt64} (h : Leased now g) (hnow : now ≤ ticks)
    (udp : List UInt8) :
    Leased ticks (dhcpHandlePacket host ticks udp g).1 := by
  rcases dhcpHandlePacket_cases host ticks udp g with ⟨-, hsame, hstate, -⟩ | ⟨-, -, -, hack⟩
  · apply (h.mono hnow).sameLease hsame
    unfold Held
    rw [hstate]
    exact id
  · rw [hack]
    exact leased_ack ticks udp g

/-- When a packet does what the lease asks for. -/
theorem packetSafe_iff {ticks : UInt64} {udp : List UInt8} :
    PacketSafe host udp m.client (dhcpHandlePacket host ticks udp m.client).1
      (dhcpHandlePacket host ticks udp m.client).2 ↔ Answered host m (.packet ticks udp) := by
  unfold PacketSafe Answered
  rcases dhcpHandlePacket_cases host ticks udp m.client with ⟨heffects, -, hstate, hnoAck⟩ | ⟨hforus, htype, hawaits, hack⟩
  · rw [heffects]
    have hheld : Held (dhcpHandlePacket host ticks udp m.client).1 ↔ Held m.client := by
      unfold Held
      rw [hstate]
    rw [hheld]
    constructor
    · intro hsafe hforus
      exact ⟨fun hnak hrenews => hsafe.1 hforus hnak hrenews hrenews.held,
        fun htype hawaits => absurd ⟨hforus, htype, hawaits⟩ hnoAck⟩
    · intro hcond
      exact ⟨fun hforus hnak hrenews => absurd hrenews ((hcond hforus).1 hnak),
        fun _ hlease => absurd hlease List.not_mem_nil⟩
  · rw [hack]
    have hnak : dhcpMsgType udp ≠ dhcpMsgNak :=
      fun hnak => absurd (htype.symm.trans hnak) (by decide)
    constructor
    · intro hsafe _
      refine ⟨fun h => absurd h hnak, fun _ _ => ?_⟩
      rw [← dhcpAckedLease_ip udp m.client]
      exact hsafe.2 _ (List.mem_singleton_self _)
    · intro hcond
      refine ⟨fun _ h => absurd h hnak, fun lease hlease => ?_⟩
      rw [Effect.applyLease.inj (List.mem_singleton.mp hlease), dhcpAckedLease_ip]
      exact (hcond hforus).2 htype hawaits

def Performs (host : Host) (m : Machine) (g : Client) (effects : List Effect) : Action → Prop
  | .start answers => g = (dhcpStartDiscovery host answers m.client).1
  | .tick answers =>
    g = (dhcpTick host answers m.client).1 ∧ effects = (dhcpTick host answers m.client).2.2
  | .packet ticks udp => (g, effects) = dhcpHandlePacket host ticks udp m.client
  | .resume answers => ∃ wait, g = (dhcpResume host answers m.client wait).1

/-- What a step of the client performs. -/
theorem dhcpPerform_some {waits : List Wait}
    (h : dhcpPerform host m action = some (g, waits, effects)) :
    Performs host m g effects action := by
  unfold dhcpPerform at h
  split at h
  · exact (Prod.mk.inj (Option.some.inj h)).1.symm
  · obtain ⟨hg, hrest⟩ := Prod.mk.inj (Option.some.inj h)
    exact ⟨hg.symm, (Prod.mk.inj hrest).2.symm⟩
  · obtain ⟨hg, hrest⟩ := Prod.mk.inj (Option.some.inj h)
    exact Prod.ext hg.symm (Prod.mk.inj hrest).2.symm
  · split at h
    · cases h
    · exact ⟨_, (Prod.mk.inj (Option.some.inj h)).1.symm⟩

/-- The times of a step go on, and it performs its action. -/
theorem dhcpStep_some (h : dhcpStep host m action = some (m', effects)) :
    (m.now :: action.times).Pairwise (· ≤ ·) ∧ m'.now = action.times.getLastD m.now ∧
      Performs host m m'.client effects action := by
  unfold dhcpStep at h
  split at h
  · next htimes =>
    obtain ⟨⟨g, waits, effects⟩, hperform, hm'⟩ := Option.map_eq_some_iff.mp h
    cases hm'
    exact ⟨htimes, rfl, dhcpPerform_some hperform⟩
  · cases h

/-- Every step keeps the invariant. -/
theorem Leased.step (h : Leased m.now m.client)
    (hstep : dhcpStep host m action = some (m', effects)) : Leased m'.now m'.client := by
  obtain ⟨htimes, hnow, hperform⟩ := dhcpStep_some hstep
  obtain ⟨hle, hrest⟩ := List.pairwise_cons.mp htimes
  rw [hnow]
  cases action with
  | start answers =>
    obtain ⟨hsame, hend, -⟩ := dhcpStartDiscovery_spec host (g := m.client) answers
    rw [← show m'.client = _ from hperform] at hsame hend
    exact (h.mono (hle _ (List.mem_singleton_self _))).sameLease hsame fun hheld =>
      absurd hheld hend
  | tick answers =>
    have htick := (h.mono (hle _ List.mem_cons_self)).tick host
    rw [← hperform.1] at htick
    exact htick.mono ((List.pairwise_cons.mp hrest).1 _ (List.mem_singleton_self _))
  | packet ticks udp =>
    have hpacket := h.packet host (hle _ (List.mem_singleton_self _)) udp
    rw [← show (m'.client, effects) = _ from hperform] at hpacket
    exact hpacket
  | resume answers =>
    obtain ⟨wait, hresume⟩ := hperform
    rw [hresume]
    exact (h.mono (hle _ (List.mem_singleton_self _))).discovers (dhcpResume_discovers answers wait)

/-- When a step does what the lease asks for. -/
theorem leaseSafe_iff (h : Leased m.now m.client)
    (hstep : dhcpStep host m action = some (m', effects)) :
    LeaseSafe host m action ↔ Answered host m action := by
  obtain ⟨htimes, -, hperform⟩ := dhcpStep_some hstep
  have honly : LeaseSafe host m action ↔ ActionSafe host m.client m'.client effects action := by
    unfold LeaseSafe
    rw [hstep]
    constructor
    · intro hsafe
      exact hsafe m' effects rfl
    · rintro hsafe _ _ ⟨⟩
      exact hsafe
  rw [honly]
  cases action with
  | start answers => exact Iff.rfl
  | tick answers =>
    obtain ⟨hle, -⟩ := List.pairwise_cons.mp htimes
    unfold ActionSafe
    rw [hperform.1, hperform.2]
    exact tickSafe_iff (h.mono (hle _ List.mem_cons_self))
  | packet ticks udp =>
    obtain ⟨hclient, heffects⟩ := Prod.ext_iff.mp hperform
    unfold ActionSafe
    dsimp only at hclient heffects
    rw [hclient, heffects]
    exact packetSafe_iff
  | resume answers => exact Iff.rfl

/-- At boot there is no lease. -/
theorem leased_boot (host : Host) (ticks tsc : UInt64) :
    Leased (dhcpBoot host ticks tsc).now (dhcpBoot host ticks tsc).client :=
  ⟨fun h => by simp [Held, dhcpBoot, dhcpInit] at h, UInt64.zero_le, UInt64.zero_le⟩

/-- Whatever is called, arrives and is waited for, all steps do what is asked of the client exactly
when every tick finds it `BOUND` in time, no NAK comes to a renewal and every ACK carries an
address, the offered one at first. -/
theorem dhcp_leaseSafe (host : Host) (ticks tsc : UInt64) (actions : List Action) (m : Machine) :
    RunWhile (dhcpNext host) (LeaseSafe host) (dhcpBoot host ticks tsc) actions m ↔
      RunWhile (dhcpNext host) (Answered host) (dhcpBoot host ticks tsc) actions m := by
  refine RunWhile.congr (I := fun m => Leased m.now m.client) ?_ ?_ (leased_boot host ticks tsc)
  · intro m action m' h hnext
    obtain ⟨⟨_, effects⟩, hstep, rfl⟩ := Option.map_eq_some_iff.mp hnext
    exact h.step hstep
  · intro m action m' h hnext
    obtain ⟨⟨_, effects⟩, hstep, rfl⟩ := Option.map_eq_some_iff.mp hnext
    exact leaseSafe_iff h hstep

def hundredHz : Host where
  timerHz := 100
  hwMac := [0x52, 0x54, 0x00, 0x12, 0x34, 0x56]
  timerHz_ne := by decide
  length_hwMac := rfl

def minuteReply (msgType : UInt8) : List UInt8 :=
  [2, 1, 6, 0] ++ dhcpPut32Be (dhcpMakeXid hundredHz 0 0) ++ List.replicate 8 0 ++ [192, 168, 1, 100] ++
    [192, 168, 1, 1] ++ List.replicate 4 0 ++ hundredHz.hwMac ++ List.replicate 202 0 ++
    dhcpPut32Be dhcpMagicCookie ++ [53, 1, msgType] ++ [54, 4, 192, 168, 1, 1] ++ [51, 4, 0, 0, 0, 60] ++ [255]

def minuteAnswers (ticks : UInt64) : Answers :=
  { ticks := ticks, xidTicks := ticks, tsc := 0, sent := true }

def minuteRun : List Action :=
  [.start (minuteAnswers 0), .packet 0 (minuteReply dhcpMsgOffer), .resume (minuteAnswers 0),
    .packet 0 (minuteReply dhcpMsgAck), .resume (minuteAnswers 0), .tick (minuteAnswers 3500)]

/-- After a REQUEST for renewal without an answer, the tick after the end of the lease does not end
it. -/
theorem not_dhcp_leaseSafe : ¬ ∀ (host : Host) (ticks tsc : UInt64) (actions : List Action) (m : Machine),
      Run (dhcpNext host) (dhcpBoot host ticks tsc) actions m →
        RunWhile (dhcpNext host) (LeaseSafe host) (dhcpBoot host ticks tsc) actions m := by
  intro hsafe
  let late : Action := .tick (minuteAnswers 7000)
  have hrun : (minuteRun.foldlM (dhcpNext hundredHz) (dhcpBoot hundredHz 0 0)).any (fun u =>
      decide (u.client.state = .renewing ∧ u.client.lease.leaseTime.toNat ≤ leaseAge hundredHz 7000 u.client) &&
        (dhcpNext hundredHz u late).any fun v => decide (v.client.state = .renewing)) = true := by
    decide +kernel
  obtain ⟨u, hu, hfacts⟩ := (Option.any_eq_true _ _).mp hrun
  obtain ⟨hbefore, hafter⟩ := Bool.and_eq_true_iff.mp hfacts
  obtain ⟨hstate, hlate⟩ := of_decide_eq_true hbefore
  obtain ⟨v, hv, hstays⟩ := (Option.any_eq_true _ _).mp hafter
  have hfold : (minuteRun ++ [late]).foldlM (dhcpNext hundredHz) (dhcpBoot hundredHz 0 0) =
      some v := by
    rw [List.foldlM_append, hu]
    change (dhcpNext hundredHz u late).bind some = some v
    rw [hv]
    rfl
  have hlast := (hsafe hundredHz 0 0 _ v (Run.of_foldlM hfold)).last hu
  obtain ⟨⟨next, effects⟩, hstep, rfl⟩ := Option.map_eq_some_iff.mp hv
  have hends := ((hlast _ _ hstep (Or.inr (Or.inl hstate))).1 hlate).1
  exact hends (Or.inr (Or.inl (of_decide_eq_true hstays)))

end Monios.Analysis.DhcpLease
