import Mathlib.Data.UInt
import Monios.Analysis.ConnectionIdentity
import Monios.Model.TcpWait

/-!
# The acknowledgement window of a connection

`tcp_ack_valid` compares an acknowledgement with `remote_ack` and `seq_num`. In ESTABLISHED
`tcp_send` moves `seq_num` on, but nothing moves `remote_ack`: it stays the first number of the
data.  And `tcp_send` moves it on after it has waited for the address of the next hop, when a RST
and a SYN may have given the entry to another connection.
-/

set_option autoImplicit false

namespace Monios.Analysis.AckWindow

open Monios.Library Monios.Model

/-- The numbers of a connection in ESTABLISHED: the first one, how many were sent from it on, and
how many of these the peer has acknowledged. -/
structure Flight where
  first : UInt32 := 0
  sent : Nat := 0
  acked : Nat := 0

structure Sender where
  wait : TcpWait := {}
  flight : TcpSlot → Flight := fun _ => {}

def Flight.InWindow (f : Flight) (ack : UInt32) : Prop :=
  ∃ k, f.acked ≤ k ∧ k ≤ f.sent ∧ ack = f.first + UInt32.ofNat k

def Flight.NeverSent (f : Flight) (ack : UInt32) : Prop :=
  ∀ k, k ≤ f.sent → ack ≠ f.first + UInt32.ofNat k

def Flight.acknowledge (f : Flight) (ack : UInt32) : Flight :=
  let k := f.acked + (ack - (f.first + UInt32.ofNat f.acked)).toNat
  if k ≤ f.sent then { f with acked := k } else f

def Flight.receive (f : Flight) (p : TcpSegment) (c c' : TcpConnection) : Flight :=
  if c.state ≠ .established ∧ c'.state = .established then { first := c'.seqNum }
  else if c.state = .established ∧ p.has tcpFlagAck then f.acknowledge p.ack
  else f

/-- What the call or the handler that goes on next adds to `seq_num`: the entry, the connection it
is for, and how many numbers. -/
def advances (s : TcpWait) (sent : Bool) : Option (TcpSlot × Nat × Nat) :=
  match s.handlers, s.call with
  | .opened k id :: _, _ => if sent then some (k, id, 1) else none
  | .closed _ :: _, _ => none
  | [], some (.connect k id) => if sent then some (k, id, 1) else none
  | [], some (.send k id offset len) => if sent then some (k, id, sendChunk offset len) else none
  | [], some (.close k id) => some (k, id, 1)
  | [], none => none

/-- The flights after a step that leads to `w`.  What a call sends counts for the connection it
sends on. -/
def Sender.nextFlight (s : Sender) (w : TcpWait) : TcpWaitAction → TcpSlot → Flight
  | .deliver localIp packet _ =>
    match (tcpParse localIp packet).bind fun p => (tcpLookup s.wait.tcp p).map fun k => (p, k) with
    | none => s.flight
    | some (p, k) =>
      Function.update s.flight k ((s.flight k).receive p (s.wait.tcp.connections k) (w.tcp.connections k))
  | .resume sent =>
    match advances s.wait sent with
    | some (k, id, n) =>
      if (s.wait.tcp.connections k).id = id then
        Function.update s.flight k { s.flight k with sent := (s.flight k).sent + n }
      else s.flight
    | none => s.flight
  | _ => s.flight

def Sender.step (s : Sender) (a : TcpWaitAction) : Option Sender :=
  (s.wait.step a).map fun w => { wait := w, flight := s.nextFlight w a }

def afterAckCheck (c : TcpConnection) (p : TcpSegment) : TcpConnection :=
  if p.seq != c.ackNum then c
  else if p.has tcpFlagFin then { c with state := .closeWait, ackNum := p.seq + 1, remoteSeq := p.seq + 1 }
  else if 0 < p.data.length ∧ p.data.length ≤ 8192 - c.rxBuffer.length then
    { c with rxBuffer := c.rxBuffer ++ p.data.map fun b => (c.id, b), rxReady := true,
             ackNum := p.seq + UInt32.ofNat p.data.length, remoteSeq := p.seq + UInt32.ofNat p.data.length }
  else c

/-- In ESTABLISHED a segment gets past the check if its acknowledgement is in the window, and is
dropped if it acknowledges what was never sent. -/
structure Windowed (s : Sender) : Prop where
  accepts : ∀ k p, (s.wait.tcp.connections k).used = true → (s.wait.tcp.connections k).state = .established →
    p.has tcpFlagRst = false → p.has tcpFlagAck = true → (s.flight k).InWindow p.ack →
    tcpHandleState (s.wait.tcp.connections k) p = afterAckCheck (s.wait.tcp.connections k) p
  drops : ∀ k p, (s.wait.tcp.connections k).used = true → (s.wait.tcp.connections k).state = .established →
    p.has tcpFlagRst = false → p.has tcpFlagAck = true → (s.flight k).NeverSent p.ack →
    tcpHandleState (s.wait.tcp.connections k) p = s.wait.tcp.connections k

/-- When a wait is over and the entry is in ESTABLISHED, it is still the connection that the call is
for, and with what was sent now the numbers since it got there are less than `2 ^ 31`. -/
def SendOk (s : Sender) : TcpWaitAction → Prop
  | .resume sent => ∀ k id n, advances s.wait sent = some (k, id, n) →
    (s.wait.tcp.connections k).used = true →
      (s.wait.tcp.connections k).state = .established → (s.wait.tcp.connections k).id = id ∧
        ((s.wait.tcp.connections k).seqNum - (s.wait.tcp.connections k).remoteAck).toNat + n <
        2 ^ 31
  | _ => True

theorem tcpHandleState_established {c : TcpConnection} {p : TcpSegment}
    (hstate : c.state = .established) (hrst : p.has tcpFlagRst = false)
    (hack : p.has tcpFlagAck = true) :
    tcpHandleState c p = if tcpAckValid c p.ack then afterAckCheck c p else c := by
  unfold tcpHandleState afterAckCheck
  simp only [hstate, hrst, hack, Bool.true_and]
  cases tcpAckValid c p.ack <;> simp

structure Counts (c : TcpConnection) (f : Flight) : Prop where
  next : c.seqNum = f.first + UInt32.ofNat f.sent
  start : c.remoteAck = f.first
  acked_le : f.acked ≤ f.sent
  few : f.sent < 2 ^ 31

theorem toNat_ofNat_few {n : Nat} (h : n < 2 ^ 31) : (UInt32.ofNat n).toNat = n := by
  rw [UInt32.toNat_ofNat']
  omega

theorem Counts.tcpAckValid_iff {c : TcpConnection} {f : Flight} (h : Counts c f) (ack : UInt32) :
    tcpAckValid c ack = true ↔ ∃ k, k ≤ f.sent ∧ ack = f.first + UInt32.ofNat k := by
  have hfew := h.few
  -- the number as a distance from the first one
  obtain ⟨x, rfl⟩ : ∃ x, ack = f.first + x := ⟨ack - f.first, by rw [add_sub_cancel]⟩
  have hx := x.toNat_lt
  have hn : (UInt32.ofNat f.sent).toNat = f.sent := toNat_ofNat_few hfew
  have hvalid : tcpAckValid c (f.first + x) = true ↔ x.toNat ≤ f.sent := by
    unfold tcpAckValid tcpSeqBetween
    rw [h.next, h.start, add_sub_cancel_left, add_sub_add_left_eq_sub, Bool.and_eq_true,
      decide_eq_true_iff,
      decide_eq_true_iff, UInt32.lt_iff_toNat_lt, UInt32.lt_iff_toNat_lt, UInt32.toNat_sub, hn]
    simp only [UInt32.reduceToNat]
    omega
  rw [hvalid]
  constructor
  · intro hle
    exact ⟨x.toNat, hle, by rw [UInt32.ofNat_toNat]⟩
  · rintro ⟨k, hk, heq⟩
    have hxk : x = UInt32.ofNat k := add_left_cancel heq
    rw [hxk, toNat_ofNat_few (by omega)]
    exact hk

theorem Counts.acknowledge {c : TcpConnection} {f : Flight} (h : Counts c f) (ack : UInt32) :
    Counts c (f.acknowledge ack) := by
  unfold Flight.acknowledge
  simp only
  split
  · next hle => exact ⟨h.next, h.start, hle, h.few⟩
  · exact h

def Counted (t : Tcp) (flight : TcpSlot → Flight) : Prop :=
  ∀ k, (t.connections k).used = true → (t.connections k).state = .established → Counts (t.connections k) (flight k)

theorem Counted.windowed {s : Sender} (h : Counted s.wait.tcp s.flight) : Windowed s := by
  refine ⟨?_, ?_⟩
  · rintro k p hused hstate hrst hack ⟨n, -, hn, heq⟩
    have hvalid := ((h k hused hstate).tcpAckValid_iff p.ack).mpr ⟨n, hn, heq⟩
    rw [tcpHandleState_established hstate hrst hack, if_pos hvalid]
  · intro k p hused hstate hrst hack hnever
    have hvalid : ¬ tcpAckValid (s.wait.tcp.connections k) p.ack = true := by
      rw [(h k hused hstate).tcpAckValid_iff]
      rintro ⟨n, hn, heq⟩
      exact hnever n hn heq
    rw [tcpHandleState_established hstate hrst hack, if_neg hvalid]

section

variable {t : Tcp} {flight : TcpSlot → Flight}

theorem Counted.set (h : Counted t flight) {k : TcpSlot} {c : TcpConnection} {f : Flight}
    (hc : c.used = true → c.state = .established → Counts c f) :
    Counted (t.set k c) (Function.update flight k f) := by
  intro l hused hstate
  by_cases hlk : l = k
  · subst hlk
    simp only [Tcp.set_connections, if_true, Function.update_self] at hused hstate ⊢
    exact hc hused hstate
  · simp only [Tcp.set_connections, if_neg hlk, Function.update_of_ne hlk] at hused hstate ⊢
    exact h l hused hstate

theorem Counted.setEntry (h : Counted t flight) {k : TcpSlot} {c : TcpConnection}
    (hc : c.used = true → c.state = .established → Counts c (flight k)) :
    Counted (t.set k c) flight := by
  have hset := h.set (k := k) hc
  rwa [Function.update_eq_self] at hset

theorem Counts.congr {c c' : TcpConnection} {f : Flight} (h : Counts c f)
    (hseq : c'.seqNum = c.seqNum) (hack : c'.remoteAck = c.remoteAck) : Counts c' f :=
  ⟨hseq.trans h.next, hack.trans h.start, h.acked_le, h.few⟩

theorem Counted.take (h : Counted t flight) (k : TcpSlot) {c : TcpConnection}
    (hc : c.state ≠ .established) :
    Counted (t.take k c) flight := by
  have hnext : Counted { t with nextId := t.nextId + 1 } flight := h
  exact hnext.setEntry fun _ hstate => absurd hstate hc

theorem Counted.tcpConnectBegin (h : Counted t flight) (remoteIp : UInt32)
    (remotePort localPort : UInt16) (seq : UInt32) :
    Counted (Model.tcpConnectBegin t remoteIp remotePort localPort seq).2 flight := by
  have hport : Counted (tcpConnectPort t remotePort localPort).2 flight := by
    obtain ⟨port, hport⟩ := tcpAllocEphemeralPort_eq 1000 t
    unfold tcpConnectPort
    split
    · exact h
    · split
      · dsimp only
        rw [hport]
        split
        · exact h
        · exact h
      · split
        · exact h
        · exact h
  unfold Model.tcpConnectBegin
  cases hchoice : tcpConnectPort t remotePort localPort with
  | mk port t' =>
    rw [hchoice] at hport
    cases port with
    | none => exact hport
    | some port =>
      dsimp only
      cases t'.firstFree with
      | none => exact hport
      | some k => exact hport.take k TcpState.noConfusion

theorem Counted.begin (h : Counted t flight) {w : TcpWait} (hw : w.tcp = t) (a : TcpWaitAction) :
    Counted (w.begin a).tcp flight := by
  subst hw
  cases a with
  | listen port =>
    simp only [TcpWait.begin, tcpListenPort]
    split
    · exact h
    · split
      · exact h
      · exact h
  | accept port =>
    simp only [TcpWait.begin, tcpAcceptReady]
    split
    · next k hk =>
        have hready := List.find?_some hk
        simp only [Bool.and_eq_true] at hready
        exact h.setEntry fun _ hstate => (h k hready.1.1.1.1 hstate).congr rfl rfl
    · exact h
  | connect remoteIp remotePort localPort seq =>
    exact h.tcpConnectBegin remoteIp remotePort localPort seq
  | close handle =>
    simp only [TcpWait.begin, tcpCloseBegin]
    split
    · exact h
    · split
      · exact h.setEntry (by simp)
      · exact h.setEntry (by simp)
      · exact h.setEntry (by simp)
  | send handle len => exact h
  | recv handle bufferSize =>
    simp only [TcpWait.begin, tcpRecv]
    split
    · exact h
    · next k hk =>
        have hc : ∀ hstate, Counts (w.tcp.connections k) (flight k) :=
          h k (tcpGetConnection_eq hk).2
        split
        · exact h
        · split
          · exact h
          · split
            · exact h.setEntry fun _ hstate => (hc hstate).congr rfl rfl
            · exact h.setEntry fun _ hstate => (hc hstate).congr rfl rfl
  | deliver localIp packet seq => exact h
  | resume sent => exact h

theorem counts_of_handled {c c' : TcpConnection} {p : TcpSegment} {f : Flight} (h : Handled c p c')
    (hf : c.state = .established → Counts c f) (hstate : c'.state = .established) :
    Counts c' (f.receive p c c') := by
  unfold Flight.receive
  -- a connection that is new in ESTABLISHED has sent nothing
  have hnew : ∀ {next start : UInt32}, c'.seqNum = next → c'.remoteAck = start → start = next →
      Counts c' { first := c'.seqNum } := by
    intro next start hnext hstart heq
    refine ⟨by simp, ?_, le_rfl, Nat.two_pow_pos 31⟩
    rw [hstart, hnext, heq]
  -- one that goes on has the same counters
  have hold : c.state = .established → c'.seqNum = c.seqNum → c'.remoteAck = c.remoteAck →
      Counts c' (if c.state = .established ∧ p.has tcpFlagAck then f.acknowledge p.ack else f) := by
    intro hc hseq hack
    split
    · exact ((hf hc).acknowledge p.ack).congr hseq hack
    · exact (hf hc).congr hseq hack
  cases h with
  | unchanged =>
    rw [if_neg (by simp)]
    exact hold hstate rfl rfl
  | cleared => cases hstate
  | answered hc hack =>
    rw [if_pos ⟨by simp [hc], rfl⟩]
    exact hnew rfl rfl hack
  | opened hc hack =>
    rw [if_pos ⟨by simp [hc], rfl⟩]
    exact hnew rfl rfl hack
  | finAcked hc => cases hstate
  | fin htakes => cases hstate
  | data hc hseq hfin hlen =>
    rw [if_neg (by simp [hc])]
    exact hold hc rfl rfl

theorem Counted.deliver {s : Sender} (h : Counted s.wait.tcp s.flight) (localIp : UInt32)
    (packet : List UInt8) (seq : UInt32) {w : TcpWait}
    (hw : w.tcp = (tcpHandleBegin localIp s.wait.tcp packet seq).2) :
    Counted w.tcp (s.nextFlight w (.deliver localIp packet seq)) := by
  simp only [Sender.nextFlight, hw, tcpHandleBegin]
  cases hparse : tcpParse localIp packet with
  | none => exact h
  | some p =>
    simp only [Option.bind_some, tcpHandleSegmentBegin]
    cases hlookup : tcpLookup s.wait.tcp p with
    | none =>
      simp only [Option.map_none]
      split
      · unfold tcpPassiveBegin
        cases s.wait.tcp.firstFree with
        | none => exact h
        | some k => exact h.take k TcpState.noConfusion
      · exact h
    | some k =>
      have hused : (s.wait.tcp.connections k).used = true := by
        have hfound := List.find?_some hlookup
        simp only [Bool.and_eq_true] at hfound
        exact hfound.1.1.1
      simp only [Option.map_some, tcpHandleStateBegin]
      split
      · next hfin =>
        -- the FIN of a connection that is closing
        refine h.set fun _ hstate => ?_
        simp only [finishes, Bool.and_eq_true, Bool.or_eq_true, decide_eq_true_eq] at hfin
        unfold finAnswered at hstate
        dsimp only at hstate
        split at hstate
        · cases hstate
        · rcases hfin.1.1 with hwait | hwait
          · rw [hwait] at hstate
            cases hstate
          · rw [hwait] at hstate
            cases hstate
      · simp only [Tcp.set_connections, if_true]
        exact h.set fun _ hstate => counts_of_handled (tcpHandleState_handled _ p)
          (h k hused) hstate

/-- The end of a wait moves `seq_num` on, changes nothing, or gives the entry up. -/
theorem resume_cases {w w' : TcpWait} {sent : Bool} (h : w.step (.resume sent) = some w') :
    (∃ k id n, advances w sent = some (k, id, n) ∧ w'.tcp = w.tcp.advance k n) ∨
      advances w sent = none ∧
      (w'.tcp = w.tcp ∨ ∃ k c, c.used = false ∧ w'.tcp = w.tcp.set k c) := by
  obtain ⟨t, call, handlers⟩ := w
  cases handlers with
  | cons handler handlers =>
    obtain rfl := Option.some.inj h
    cases handler with
    | opened k id =>
      cases sent with
      | true => exact Or.inl ⟨k, id, 1, rfl, rfl⟩
      | false => exact Or.inr ⟨rfl, Or.inr ⟨k, {}, rfl, rfl⟩⟩
    | closed k => exact Or.inr ⟨rfl, Or.inr ⟨k, {}, rfl, rfl⟩⟩
  | nil =>
    cases call with
    | none => cases h
    | some c =>
      obtain rfl := Option.some.inj h
      cases c with
      | connect k id =>
        cases sent with
        | true => exact Or.inl ⟨k, id, 1, rfl, rfl⟩
        | false => exact Or.inr ⟨rfl, Or.inr ⟨k, _, rfl, rfl⟩⟩
      | send k id offset len =>
        cases sent with
        | true => exact Or.inl ⟨k, id, sendChunk offset len, rfl, rfl⟩
        | false => exact Or.inr ⟨rfl, Or.inl rfl⟩
      | close k id => exact Or.inl ⟨k, id, 1, rfl, rfl⟩

theorem Counted.resume {s : Sender} (h : Counted s.wait.tcp s.flight) {sent : Bool}
    (hok : SendOk s (.resume sent)) {w : TcpWait} (hw : s.wait.step (.resume sent) = some w) :
    Counted w.tcp (s.nextFlight w (.resume sent)) := by
  simp only [Sender.nextFlight]
  rcases resume_cases hw with ⟨k, id, n, hadvances, htcp⟩ | ⟨hnone, htcp⟩
  · have hok := hok k id n hadvances
    rw [hadvances, htcp]
    dsimp only
    unfold Tcp.advance
    split
    · refine h.set fun hused hstate => ?_
      have hcounts := h k hused hstate
      have hbytes := (hok hused hstate).2
      -- how many were sent so far is the distance of the counters
      rw [hcounts.next, hcounts.start, add_sub_cancel_left, toNat_ofNat_few hcounts.few] at hbytes
      refine ⟨?_, hcounts.start, hcounts.acked_le.trans (Nat.le_add_right _ _), hbytes⟩
      dsimp only
      rw [hcounts.next, add_assoc, ← UInt32.ofNat_add]
    · next hother => exact h.setEntry fun hused hstate => absurd (hok hused hstate).1 hother
  · rw [hnone]
    rcases htcp with htcp | ⟨k, c, hused, htcp⟩
    · rw [htcp]
      exact h
    · rw [htcp]
      exact h.setEntry fun hc => absurd hc (by rw [hused]; decide)

theorem Counted.step {s s' : Sender} (h : Counted s.wait.tcp s.flight) {a : TcpWaitAction}
    (hok : SendOk s a) (hstep : s.step a = some s') : Counted s'.wait.tcp s'.flight := by
  unfold Sender.step at hstep
  obtain ⟨w, hw, rfl⟩ := Option.map_eq_some_iff.mp hstep
  dsimp only
  cases a with
  | deliver localIp packet seq =>
    obtain rfl := Option.some.inj hw
    exact h.deliver localIp packet seq rfl
  | resume sent => exact h.resume hok hw
  | _ =>
    unfold TcpWait.step at hw
    dsimp only at hw
    split at hw
    · obtain rfl := Option.some.inj hw
      exact h.begin rfl _
    · cases hw

end

/-- In every run in which the entry of a call that waits is not given to another connection, and
less than `2 ^ 31` numbers are sent over each connection, the acknowledgements in the window are
accepted and those of data that was never sent are dropped. -/
theorem windowed_of_run {actions : List TcpWaitAction} {s : Sender}
    (h : RunWhile Sender.step SendOk {} actions s) :
    Windowed s := by
  have hcounted : Counted s.wait.tcp s.flight := by
    refine h.invariant (I := fun s => Counted s.wait.tcp s.flight) ?_ ?_
    · intro s a s' hok hs hstep
      exact hs.step hok hstep
    · intro k hused
      cases hused
  exact hcounted.windowed

/-- A connection is opened; a segment waits for the address of the next hop, and so does the next
call. -/
def sendRun : List TcpWaitAction :=
  [ .connect 0x0A000202 80 49153 200, .resume true, .deliver 0x0A00020F synAckPacket 0, .send 1 3,
    .deliver 0x0A00020F dataPacket 0, .resume true]

/-- The state after a list of actions, all of which are enabled. -/
def Sender.after (actions : List TcpWaitAction) : Sender := (actions.foldlM Sender.step {}).getD {}

theorem windowed_sendRun : ∃ s, RunWhile Sender.step SendOk {} sendRun s ∧ Windowed s := by
  have hopen : SendOk (Sender.after (sendRun.take 1)) (.resume true) := by
    intro k id n hadvances hused hstate
    have hidle : ∀ k, ((Sender.after (sendRun.take 1)).wait.tcp.connections k).state ≠ .established := by decide
    exact absurd hstate (hidle k)
  have hsent : SendOk (Sender.after (sendRun.take 5)) (.resume true) := by
    intro k id n hadvances hused hstate
    have heq : advances (Sender.after (sendRun.take 5)).wait true = some (0, 0, 3) := by decide
    obtain ⟨rfl, rfl, rfl⟩ : 0 = k ∧ 0 = id ∧ 3 = n := by simpa using heq.symm.trans hadvances
    decide
  have hrun : RunWhile Sender.step SendOk {} sendRun (Sender.after sendRun) := by
    refine .cons trivial rfl (.cons hopen rfl (.cons trivial rfl (.cons trivial rfl (.cons trivial rfl ?_))))
    exact .cons hsent rfl (.nil _)
  exact ⟨_, hrun, windowed_of_run hrun⟩

/-! ## The condition is exact -/

theorem not_windowed_of_far {s : Sender} {k : TcpSlot}
    (hused : (s.wait.tcp.connections k).used = true)
    (hstate : (s.wait.tcp.connections k).state = .established)
    (hnext : (s.wait.tcp.connections k).seqNum = (s.flight k).first +
      UInt32.ofNat (s.flight k).sent)
    (hstart : (s.wait.tcp.connections k).remoteAck = (s.flight k).first)
    (hacked : (s.flight k).acked ≤ (s.flight k).sent) (hfar : 2 ^ 31 ≤ (s.flight k).sent)
    (hlt : (s.flight k).sent < 2 ^ 32) : ¬ Windowed s := by
  intro h
  -- the peer acknowledges everything and closes
  let p : TcpSegment :=
    { srcIp := 0, srcPort := 0, dstPort := 0, seq := (s.wait.tcp.connections k).ackNum, ack := (s.wait.tcp.connections k).seqNum,
      flags := 0x11, window := 0, data := [] }
  have hack : p.has tcpFlagAck = true := by
    simp only [p, TcpSegment.has, tcpFlagAck]
    decide
  have hrst : p.has tcpFlagRst = false := by
    simp only [p, TcpSegment.has, tcpFlagRst]
    decide
  have hfin : p.has tcpFlagFin = true := by
    simp only [p, TcpSegment.has, tcpFlagFin]
    decide
  have hinvalid : ¬ tcpAckValid (s.wait.tcp.connections k) p.ack = true := by
    have hsent : (UInt32.ofNat (s.flight k).sent).toNat = (s.flight k).sent := by
      rw [UInt32.toNat_ofNat']
      omega
    simp only [tcpAckValid, tcpSeqBetween, Bool.and_eq_true, decide_eq_true_iff, p]
    rintro ⟨hnear, -⟩
    rw [hnext, hstart, add_sub_cancel_left, UInt32.lt_iff_toNat_lt, hsent] at hnear
    simp only [UInt32.reduceToNat] at hnear
    omega
  have haccepted := h.accepts k p hused hstate hrst hack ⟨(s.flight k).sent, hacked, le_rfl, hnext⟩
  rw [tcpHandleState_established hstate hrst hack, if_neg hinvalid] at haccepted
  have hclosed : (afterAckCheck (s.wait.tcp.connections k) p).state = .closeWait := by
    have hseq : p.seq = (s.wait.tcp.connections k).ackNum := rfl
    simp [afterAckCheck, hfin, hseq]
  rw [← haccepted, hstate] at hclosed
  cases hclosed

/-- An entry in ESTABLISHED whose `seq_num` is moved on for another connection lets through what was
never sent. -/
theorem not_windowed_of_stranger {s : Sender} {k : TcpSlot} {n : Nat}
    (hused : (s.wait.tcp.connections k).used = true) (hstate : (s.wait.tcp.connections k).state =
      .established) (hcounts : Counts (s.wait.tcp.connections k) (s.flight k))
    (hn : 0 < n) (hfew : (s.flight k).sent + n < 2 ^ 31) :
    ¬ Windowed { s with wait := { s.wait with tcp := s.wait.tcp.advance k n } } := by
  intro h
  -- the peer acknowledges all numbers that `seq_num` counts
  let c : TcpConnection := { s.wait.tcp.connections k with seqNum := (s.wait.tcp.connections k).seqNum + UInt32.ofNat n }
  let p : TcpSegment :=
    { srcIp := 0, srcPort := 0, dstPort := 0, seq := c.ackNum, ack := c.seqNum, flags := 0x11, window := 0, data := [] }
  have hack : p.has tcpFlagAck = true := by
    simp only [p, TcpSegment.has, tcpFlagAck]
    decide
  have hrst : p.has tcpFlagRst = false := by
    simp only [p, TcpSegment.has, tcpFlagRst]
    decide
  have hfin : p.has tcpFlagFin = true := by
    simp only [p, TcpSegment.has, tcpFlagFin]
    decide
  have hconn : ({ s with wait := { s.wait with tcp := s.wait.tcp.advance k n } } : Sender).wait.tcp.connections k = c := by
    simp only [Tcp.advance, Tcp.set_connections, if_true, c]
  have hseq : c.seqNum = (s.flight k).first + UInt32.ofNat ((s.flight k).sent + n) := by
    rw [UInt32.ofNat_add, ← add_assoc, ← hcounts.next]
  have hwide : Counts c { s.flight k with sent := (s.flight k).sent + n } :=
    ⟨hseq, hcounts.start, hcounts.acked_le.trans (Nat.le_add_right _ _), hfew⟩
  have hvalid : tcpAckValid c p.ack = true := (hwide.tcpAckValid_iff p.ack).mpr ⟨_, le_rfl, hseq⟩
  have hnever : (s.flight k).NeverSent p.ack := by
    intro m hm heq
    have hsame : UInt32.ofNat ((s.flight k).sent + n) = UInt32.ofNat m :=
      add_left_cancel (hseq.symm.trans heq)
    have hnat := congrArg UInt32.toNat hsame
    rw [toNat_ofNat_few hfew, toNat_ofNat_few (by omega)] at hnat
    omega
  have hdropped := h.drops k p (by rw [hconn]; exact hused) (by rw [hconn]; exact hstate) hrst hack hnever
  rw [hconn, tcpHandleState_established (by exact hstate) hrst hack, if_pos hvalid] at hdropped
  have hclosed : (afterAckCheck c p).state = .closeWait := by
    have hpseq : p.seq = c.ackNum := rfl
    simp [afterAckCheck, hfin, hpseq]
  rw [hdropped] at hclosed
  cases hstate.symm.trans hclosed

/-- A call of `tcp_send` with 1024 bytes, which fit into one segment. -/
def sendBlock : List TcpWaitAction := [.send 1 1024, .resume true]

def openRun : List TcpWaitAction :=
  [.connect 0x0A000202 80 49153 200, .resume true, .deliver 0x0A00020F synAckPacket 0]

def longRun : List TcpWaitAction := openRun ++ (List.replicate 2097152 sendBlock).flatten

structure Sending (s : Sender) (n : Nat) : Prop where
  used : (s.wait.tcp.connections 0).used = true
  state : (s.wait.tcp.connections 0).state = .established
  next : (s.wait.tcp.connections 0).seqNum = 201 + UInt32.ofNat (1024 * n)
  start : (s.wait.tcp.connections 0).remoteAck = 201
  flight : s.flight 0 = { first := 201, sent := 1024 * n }
  call : s.wait.call = none
  handlers : s.wait.handlers = []

theorem Sending.step {s : Sender} {n : Nat} (h : Sending s n) :
    ∃ s₁ s₂, s.step (.send 1 1024) = some s₁ ∧
    s₁.step (.resume true) = some s₂ ∧ Sending s₂ (n + 1) := by
  obtain ⟨⟨t, call, handlers⟩, flight⟩ := s
  obtain ⟨hused, hstate, hnext, hstart, hflight, rfl, rfl⟩ := h
  dsimp only at hused hstate hnext hstart hflight
  have hk : tcpGetConnection t 1 = some 0 := by
    simp [tcpGetConnection, List.finRange_succ, hused]
  have hbegin : tcpSendBegin t 1 1024 = some (.send 0 (t.connections 0).id 0 1024) := by
    simp [tcpSendBegin, hk, hstate]
  have hfirst : Sender.step ⟨⟨t, none, []⟩, flight⟩ (.send 1 1024) =
      some ⟨⟨t, some (.send 0 (t.connections 0).id 0 1024), []⟩, flight⟩ := by
    simp [Sender.step, TcpWait.step, TcpWait.begin, hbegin, Sender.nextFlight]
  have hsecond : Sender.step ⟨⟨t, some (.send 0 (t.connections 0).id 0 1024), []⟩, flight⟩ (.resume true) =
      some ⟨⟨t.advance 0 1024, none, []⟩, Function.update flight 0 { flight 0 with sent := (flight 0).sent + 1024 }⟩ := by
    simp [Sender.step, TcpWait.step, TcpCall.resume, sendChunk, Sender.nextFlight, advances]
  refine ⟨_, _, hfirst, hsecond, ?_, ?_, ?_, ?_, ?_, rfl, rfl⟩
  all_goals simp only [Tcp.advance, Tcp.set_connections, if_true, Function.update_self]
  · exact hused
  · exact hstate
  · rw [hnext, Nat.mul_succ, UInt32.ofNat_add, add_assoc]
  · exact hstart
  · rw [hflight]
    rfl

theorem Sending.steps {s : Sender} {m : Nat} (h : Sending s m) (n : Nat) :
    ∃ s', Run Sender.step s (List.replicate n sendBlock).flatten s' ∧ Sending s' (m + n) := by
  induction n generalizing s m with
  | zero => exact ⟨s, .nil s, h⟩
  | succ n ih =>
    obtain ⟨s₁, s₂, hfirst, hsecond, hnext⟩ := h.step
    obtain ⟨s', hrun, hs'⟩ := ih hnext
    refine ⟨s', .cons hfirst (.cons hsecond hrun), ?_⟩
    rwa [Nat.add_right_comm] at hs'

theorem run_openRun {actions : List TcpWaitAction} {s : Sender}
    (h : Run Sender.step (Sender.after openRun) actions s) :
    Run Sender.step {} (openRun ++ actions) s := .cons rfl (.cons rfl (.cons rfl h))

theorem not_windowed_longRun : ∃ s, Run Sender.step {} longRun s ∧ ¬ Windowed s := by
  have hstart : Sending (Sender.after openRun) 0 := by
    refine ⟨?_, ?_, ?_, ?_, rfl, rfl, rfl⟩ <;> decide
  obtain ⟨s, hrun, h⟩ := hstart.steps 2097152
  rw [Nat.zero_add] at h
  refine ⟨s, run_openRun hrun, ?_⟩
  apply not_windowed_of_far h.used h.state
  · rw [h.next, h.flight]
  · rw [h.start, h.flight]
  · rw [h.flight]
    exact Nat.zero_le _
  · rw [h.flight]
    decide
  · rw [h.flight]
    decide

end Monios.Analysis.AckWindow
