import Mathlib.Data.Fintype.Card
import Monios.Analysis.ConnectionIdentity

/-!
# Accepted connections

Next to the stack stands what can be told from outside: the connections that calls of accept
returned, the ports whose listening socket was closed, and the connections that segments opened at
such ports. `AcceptCorrect` says that every completed connection that was not returned can still be
accepted, that none is returned twice, and that no connection was opened at a port that nothing
listens on any more.
-/

set_option autoImplicit false

namespace Monios.Analysis

open Monios.Library Monios.Model

structure Observed where
  net : Net := {}
  listening : SocketSlot → Bool := fun _ => false
  closedPorts : List UInt16 := []
  returned : List Nat := []
  intruded : List UInt16 := []

def Observed.stopped (o : Observed) (port : UInt16) : Bool :=
  o.closedPorts.contains port && !(List.finRange 16).any fun i => o.listening i && (o.net.sockets i).localPort == port

def acceptedBy (s s' : Net) : Option Nat :=
  ((List.finRange 16).find? fun i => !(s.sockets i).used && (s'.sockets i).used).bind fun i => (s'.sockets i).conn

def openedEntry (t t' : Tcp) : Option TcpSlot :=
  (List.finRange 4).find? fun k => !(t.connections k).used && (t'.connections k).used

def intrudedBy (o : Observed) (s' : Net) : Option UInt16 :=
  ((openedEntry o.net.tcp s'.tcp).map fun k => (s'.tcp.connections k).localPort).filter o.stopped

def observedStep (o : Observed) (a : NetAction) : Option Observed :=
  let s := netStep o.net a
  match a with
  | .listen handle =>
    match tcpSocket o.net handle with
    | none => some { o with net := s }
    | some i =>
      let heard := (tcpListenPort o.net.tcp (o.net.sockets i).localPort).1
      some { o with net := s, listening := Function.update o.listening i (o.listening i || heard) }
  | .close handle =>
    match socketFromHandle o.net handle with
    | none => some { o with net := s }
    | some i =>
      some { o with net := s, listening := Function.update o.listening i false,
                    closedPorts := if o.listening i then (o.net.sockets i).localPort :: o.closedPorts else o.closedPorts }
  | .accept _ => some { o with net := s, returned := o.returned ++ (acceptedBy o.net s).toList }
  | .deliver _ _ _ _ => some { o with net := s, intruded := o.intruded ++ (intrudedBy o s).toList }
  | _ => some { o with net := s }

def Completed (c : TcpConnection) : Prop :=
  c.used = true ∧ c.passive = true ∧ c.state = .established

def Acceptable (c : TcpConnection) (port : UInt16) : Prop :=
  Completed c ∧ c.accepted = false ∧ c.localPort = port

structure AcceptCorrect (o : Observed) : Prop where
  acceptable : ∀ k, Completed (o.net.tcp.connections k) → (o.net.tcp.connections k).id ∉ o.returned →
    Acceptable (o.net.tcp.connections k) (o.net.tcp.connections k).localPort
  once : o.returned.Nodup
  stopped : o.intruded = []

/-- An accept finds a free socket or no connection, and no SYN of a new peer for a port that nothing
listens on finds a free entry and gets its answer. -/
def AcceptGuard (o : Observed) : NetAction → Prop
  | .accept handle => ∀ i, tcpSocket o.net handle = some i → socketAllocHandle o.net = none →
      ∀ k, ¬ Acceptable (o.net.tcp.connections k) (o.net.sockets i).localPort
  | .deliver localIp packet _ sent =>
    ∀ p, tcpParse localIp packet = some p → p.has tcpFlagSyn = true →
      p.has tcpFlagAck = false → o.stopped p.dstPort = true → tcpLookup o.net.tcp p = none →
      o.net.tcp.firstFree = none ∨ sent = false
  | _ => True

variable {k : TcpSlot}

/-- `tcp_accept_ready` marks the first acceptable connection. -/
theorem tcpAcceptReady_some {t t' : Tcp} {port : UInt16}
    (h : tcpAcceptReady t port = some (k, t')) :
    Acceptable (t.connections k) port ∧ (∀ l, l < k → ¬ Acceptable (t.connections l) port) ∧
      t' = t.set k { t.connections k with accepted := true } := by
  unfold tcpAcceptReady at h
  split at h
  · next j hj =>
      obtain ⟨rfl, rfl⟩ := Prod.mk.inj (Option.some.inj h)
      obtain ⟨hready, before, after, heq, hnot⟩ := List.find?_eq_some_iff_append.mp hj
      simp only [Bool.and_eq_true, Bool.not_eq_true', beq_iff_eq, decide_eq_true_eq] at hready
      refine ⟨⟨⟨hready.1.1.1.1, hready.1.1.1.2, hready.2⟩, hready.1.1.2, hready.1.2⟩, ?_, rfl⟩
      rintro l hl ⟨⟨hused, hpassive, hstate⟩, haccepted, hport⟩
      have hmem : l ∈ before := by
        have hl' : l ∈ before ++ j :: after := heq ▸ List.mem_finRange l
        have hsorted : (before ++ j :: after).Pairwise (· < ·) := heq ▸ List.pairwise_lt_finRange 4
        rcases List.mem_append.mp hl' with hb | ha
        · exact hb
        · rcases List.mem_cons.mp ha with rfl | ha
          · exact absurd hl (lt_irrefl _)
          · have hlt := (List.pairwise_cons.mp (List.pairwise_append.mp hsorted).2.1).1 l ha
            exact absurd (lt_trans hl hlt) (lt_irrefl _)
      have := hnot l hmem
      simp [hused, hpassive, hstate, haccepted, hport] at this
  · cases h

/-- What a call of accept does: nothing, or it marks a connection and makes a socket for it when one
is free. -/
inductive Accepts (s : Net) (handle : Int) : Net → Prop
  | nothing : Accepts s handle s
  | lost {i : SocketSlot} {k : TcpSlot} (hi : tcpSocket s handle = some i) (hfull : socketAllocHandle s = none)
      (hk : Acceptable (s.tcp.connections k) (s.sockets i).localPort) :
      Accepts s handle { s with tcp := s.tcp.set k { s.tcp.connections k with accepted := true } }
  | given {i client : SocketSlot} {k : TcpSlot} (hi : tcpSocket s handle = some i)
      (hclient : socketAllocHandle s = some client) (hk : Acceptable (s.tcp.connections k) (s.sockets i).localPort) :
      Accepts s handle ({ s with tcp := s.tcp.set k { s.tcp.connections k with accepted := true } }.set client
          { used := true, isTcp := true, localPort := (s.sockets i).localPort, tcpHandle := ((k : Nat) : Int) + 1,
            conn := some (s.tcp.connections k).id })

/-- An accept that succeeds hands out one connection, and one that fails loses none. -/
theorem socketTcpAccept_accepts (s : Net) (handle : Int) :
    Accepts s handle (socketTcpAccept s handle) := by
  unfold socketTcpAccept
  split
  · exact .nothing
  · next i hi =>
      split
      · exact .nothing
      · next k t hready =>
          obtain ⟨hk, -, rfl⟩ := tcpAcceptReady_some hready
          split
          · next hfull => exact .lost hi hfull hk
          · next client hclient => exact .given hi hclient hk

/-- The same sockets have accepted nothing. -/
theorem acceptedBy_same {s s' : Net} (h : s'.sockets = s.sockets) : acceptedBy s s' = none := by
  unfold acceptedBy
  rw [h, List.find?_eq_none.mpr]
  · rfl
  · intro i _
    simp

/-- A new socket has accepted the connection it names. -/
theorem acceptedBy_set {s : Net} {t : Tcp} {client : SocketSlot} {sock : Socket}
    (hclient : socketAllocHandle s = some client) (hused : sock.used = true) :
    acceptedBy s ({ s with tcp := t }.set client sock) = sock.conn := by
  have hfree : (s.sockets client).used = false := by
    have := List.find?_some hclient
    simpa using this
  have hnew : ∀ i, (!(s.sockets i).used && ((({ s with tcp := t } : Net).set client sock).sockets i).used) = true ↔
      i = client := by
    intro i
    rw [Net.set_sockets]
    by_cases hi : i = client
    · simp [hi, hfree, hused]
    · simp [hi]
  unfold acceptedBy
  cases hfind : (List.finRange 16).find? fun i =>
      !(s.sockets i).used && ((({ s with tcp := t } : Net).set client sock).sockets i).used with
  | none =>
    have := List.find?_eq_none.mp hfind client (List.mem_finRange client)
    exact absurd ((hnew client).mpr rfl) this
  | some i =>
    have hnewUsed := List.find?_some hfind
    have hi : i = client := (hnew i).mp hnewUsed
    rw [hi, Option.bind_some, Net.set_sockets, if_pos rfl]

structure Kept (c c' : TcpConnection) : Prop where
  used : c.used = true
  ident : c'.id = c.id
  passive : c'.passive = c.passive
  accepted : c'.accepted = c.accepted

structure New (t t' : Tcp) (c : TcpConnection) : Prop where
  ident : c.id = t.nextId
  later : t.nextId < t'.nextId
  accepted : c.passive = true → c.accepted = false

structure OneEntry (t t' : Tcp) (k : TcpSlot) : Prop where
  others : ∀ l, l ≠ k → t'.connections l = t.connections l
  nextId : t.nextId ≤ t'.nextId
  entry : (t'.connections k).used = true → Kept (t.connections k) (t'.connections k) ∨ New t t' (t'.connections k)

/-- A connection is kept by itself. -/
theorem Kept.refl {c : TcpConnection} (h : c.used = true) : Kept c c := ⟨h, rfl, rfl, rfl⟩

/-- The same entries. -/
theorem OneEntry.same {t t' : Tcp} (hconn : t'.connections = t.connections)
    (hnext : t'.nextId = t.nextId) :
    OneEntry t t' 0 := by
  refine ⟨fun l _ => by rw [hconn], hnext ▸ le_refl _, fun hused => Or.inl ?_⟩
  rw [hconn] at hused ⊢
  exact .refl hused

/-- One entry, kept. -/
theorem OneEntry.kept {t : Tcp} {c : TcpConnection}
    (hc : c.used = true → Kept (t.connections k) c) :
    OneEntry t (t.set k c) k := by
  refine ⟨fun l hl => by rw [Tcp.set_connections, if_neg hl], le_refl _, fun hused => Or.inl ?_⟩
  rw [Tcp.set_connections, if_pos rfl] at hused ⊢
  exact hc hused

/-- One entry, cleared. -/
theorem OneEntry.cleared (t : Tcp) (k : TcpSlot) : OneEntry t (t.set k {}) k :=
  .kept fun hused => by cases hused

/-- `tcp_send` changes one entry. -/
theorem tcpSend_oneEntry (t : Tcp) (handle : Int) (data : List UInt8) (sentBytes : Nat) :
    ∃ k, OneEntry t (tcpSend t handle data sentBytes).2 k := by
  unfold tcpSend
  split
  · exact ⟨0, .same rfl rfl⟩
  · next k hk =>
      simp only
      split
      · exact ⟨0, .same rfl rfl⟩
      · split
        · exact ⟨0, .same rfl rfl⟩
        · exact ⟨k, .kept fun _ => ⟨(tcpGetConnection_eq hk).2, rfl, rfl, rfl⟩⟩

/-- `tcp_recv` changes one entry. -/
theorem tcpRecv_oneEntry (t : Tcp) (handle : Int) (size : Nat) :
    ∃ k, OneEntry t (tcpRecv t handle size).2 k := by
  unfold tcpRecv
  split
  · exact ⟨0, .same rfl rfl⟩
  · next k hk =>
      simp only
      split
      · exact ⟨0, .same rfl rfl⟩
      · split
        · exact ⟨0, .same rfl rfl⟩
        · split
          · exact ⟨k, .kept fun _ => ⟨(tcpGetConnection_eq hk).2, rfl, rfl, rfl⟩⟩
          · exact ⟨k, .kept fun _ => ⟨(tcpGetConnection_eq hk).2, rfl, rfl, rfl⟩⟩

/-- `tcp_close` changes one entry. -/
theorem tcpClose_oneEntry (t : Tcp) (handle : Int) : ∃ k, OneEntry t (tcpClose t handle) k := by
  unfold tcpClose
  split
  · exact ⟨0, .same rfl rfl⟩
  · next k hk =>
      simp only
      split
      · exact ⟨k, .kept fun _ => ⟨(tcpGetConnection_eq hk).2, rfl, rfl, rfl⟩⟩
      · exact ⟨k, .kept fun _ => ⟨(tcpGetConnection_eq hk).2, rfl, rfl, rfl⟩⟩
      · exact ⟨k, .cleared t k⟩

/-- `tcp_connect` changes one entry. -/
theorem tcpConnect_oneEntry (t : Tcp) (remoteIp : UInt32) (remotePort localPort : UInt16)
    (seq : UInt32) (sent : Bool) :
    ∃ k, OneEntry t (tcpConnect t remoteIp remotePort localPort seq sent).2 k := by
  have hconn := tcpConnect_connects t remoteIp remotePort localPort seq sent
  generalize tcpConnect t remoteIp remotePort localPort seq sent = r at hconn
  cases hconn with
  | failed port => exact ⟨0, .same rfl rfl⟩
  | @taken port k c hk hid hrx hpassive =>
    refine ⟨k, fun l hl => by rw [Tcp.set_connections, if_neg hl], Nat.le_succ _,
      fun _ => Or.inr ?_⟩
    rw [Tcp.set_connections, if_pos rfl]
    exact ⟨hid, Nat.lt_succ_self _, by simp [hpassive]⟩

/-- A segment that is handled keeps the connection. -/
theorem Handled.kept {c c' : TcpConnection} {p : TcpSegment} (h : Handled c p c')
    (hused : c.used = true) (hused' : c'.used = true) : Kept c c' := by
  cases h with
  | cleared => cases hused'
  | unchanged => exact .refl hused
  | answered => exact ⟨hused, rfl, rfl, rfl⟩
  | opened => exact ⟨hused, rfl, rfl, rfl⟩
  | finAcked => exact ⟨hused, rfl, rfl, rfl⟩
  | fin => exact ⟨hused, rfl, rfl, rfl⟩
  | data => exact ⟨hused, rfl, rfl, rfl⟩

/-- The connection that is looked up is in use. -/
theorem tcpLookup_used {t : Tcp} {p : TcpSegment} (h : tcpLookup t p = some k) :
    (t.connections k).used = true := by
  have := List.find?_some h
  simp only [Bool.and_eq_true] at this
  exact this.1.1.1

/-- A passive open changes one entry. -/
theorem tcpPassiveOpen_oneEntry (t : Tcp) (p : TcpSegment) (seq : UInt32) (sent : Bool) :
    ∃ k, OneEntry t (tcpPassiveOpen t p seq sent) k := by
  unfold tcpPassiveOpen
  split
  · exact ⟨0, .same rfl rfl⟩
  · next k hk =>
      cases sent with
      | false =>
        refine ⟨k, fun l hl => ?_, Nat.le_succ _, fun hused => ?_⟩
        · exact (Tcp.set_connections _ k l _).trans (if_neg hl)
        · simp [Tcp.set] at hused
      | true =>
        refine ⟨k, fun l hl => ?_, Nat.le_succ _, fun _ => Or.inr ⟨?_, Nat.lt_succ_self _, fun _ => ?_⟩⟩
        · exact (Tcp.set_connections _ k l _).trans (if_neg hl)
        · simp [Tcp.set]
        · simp [Tcp.set]

/-- A packet changes one entry. -/
theorem tcpHandleIpv4_oneEntry (localIp : UInt32) (t : Tcp) (packet : List UInt8) (seq : UInt32)
    (sent : Bool) :
    ∃ k, OneEntry t (tcpHandleIpv4 localIp t packet seq sent) k := by
  unfold tcpHandleIpv4
  split
  · next p _ =>
      unfold tcpHandleSegment
      split
      · next k hk =>
          exact ⟨k, .kept ((tcpHandleState_handled _ _).kept (tcpLookup_used hk))⟩
      · split
        · exact tcpPassiveOpen_oneEntry t p seq sent
        · exact ⟨0, .same rfl rfl⟩
  · exact ⟨0, .same rfl rfl⟩

structure Ledger (t : Tcp) (returned : List Nat) : Prop where
  fresh : ∀ k, (t.connections k).used = true → (t.connections k).id < t.nextId
  distinct : ∀ k l, (t.connections k).used = true → (t.connections l).used = true →
    (t.connections k).id = (t.connections l).id → k = l
  returned_lt : ∀ c ∈ returned, c < t.nextId
  waiting : ∀ k, (t.connections k).used = true → (t.connections k).accepted = false → (t.connections k).id ∉ returned
  marked : ∀ k, (t.connections k).used = true → (t.connections k).passive = true → (t.connections k).accepted = true →
    (t.connections k).id ∈ returned
  once : returned.Nodup

/-- A change of one entry keeps the ledger of what was accepted. -/
theorem Ledger.oneEntry {t t' : Tcp} {returned : List Nat} (h : Ledger t returned)
    (hone : OneEntry t t' k) : Ledger t' returned := by
  have hold : ∀ l, (t'.connections l).used = true →
      Kept (t.connections l) (t'.connections l) ∨ (l = k ∧ New t t' (t'.connections l)) := by
    intro l hl
    by_cases hlk : l = k
    · subst hlk
      exact (hone.entry hl).imp id fun hnew => ⟨rfl, hnew⟩
    · rw [hone.others l hlk] at hl ⊢
      exact Or.inl (.refl hl)
  refine ⟨?_, ?_, fun c hc => lt_of_lt_of_le (h.returned_lt c hc) hone.nextId, ?_, ?_, h.once⟩
  · intro l hl
    rcases hold l hl with hkept | ⟨-, hnew⟩
    · rw [hkept.ident]
      exact lt_of_lt_of_le (h.fresh l hkept.used) hone.nextId
    · rw [hnew.ident]
      exact hnew.later
  · intro l m hl hm heq
    rcases hold l hl with hkept | ⟨rfl, hnew⟩
    · rcases hold m hm with hkept' | ⟨rfl, hnew'⟩
      · rw [hkept.ident, hkept'.ident] at heq
        exact h.distinct l m hkept.used hkept'.used heq
      · rw [hkept.ident, hnew'.ident] at heq
        exact absurd heq (ne_of_lt (h.fresh l hkept.used))
    · rcases hold m hm with hkept' | ⟨rfl, -⟩
      · rw [hnew.ident, hkept'.ident] at heq
        exact absurd heq.symm (ne_of_lt (h.fresh m hkept'.used))
      · rfl
  · intro l hl haccepted
    rcases hold l hl with hkept | ⟨-, hnew⟩
    · rw [hkept.ident]
      exact h.waiting l hkept.used (hkept.accepted ▸ haccepted)
    · rw [hnew.ident]
      exact fun hmem => lt_irrefl _ (h.returned_lt _ hmem)
  · intro l hl hpassive haccepted
    rcases hold l hl with hkept | ⟨-, hnew⟩
    · rw [hkept.ident]
      exact h.marked l hkept.used (hkept.passive ▸ hpassive) (hkept.accepted ▸ haccepted)
    · rw [hnew.accepted hpassive] at haccepted
      cases haccepted

/-- An accept adds a connection that had not been accepted. -/
theorem Ledger.returns {t : Tcp} {returned : List Nat} (h : Ledger t returned)
    (hused : (t.connections k).used = true) (hnot : (t.connections k).accepted = false) :
    Ledger (t.set k { t.connections k with accepted := true })
      (returned ++ [(t.connections k).id]) := by
  have hget : ∀ l, (t.set k { t.connections k with accepted := true }).connections l =
      if l = k then { t.connections k with accepted := true } else t.connections l := fun l => Tcp.set_connections t k l _
  have hid : ∀ l, ((t.set k { t.connections k with accepted := true }).connections l).id =
      (t.connections l).id := by
    intro l
    rw [hget l]
    split
    · next hlk => rw [hlk]
    · rfl
  have huse : ∀ l, ((t.set k { t.connections k with accepted := true }).connections l).used =
      (t.connections l).used := by
    intro l
    rw [hget l]
    split
    · next hlk => rw [hlk]
    · rfl
  refine ⟨?_, ?_, ?_, ?_, ?_, ?_⟩
  · intro l hl
    rw [huse l] at hl
    rw [hid l]
    exact h.fresh l hl
  · intro l m hl hm heq
    rw [huse] at hl hm
    rw [hid l, hid m] at heq
    exact h.distinct l m hl hm heq
  · intro c hc
    rcases List.mem_append.mp hc with hc | hc
    · exact h.returned_lt c hc
    · rw [List.mem_singleton.mp hc]
      exact h.fresh k hused
  · intro l hl haccepted
    rw [huse l] at hl
    rw [hid l, List.mem_append, List.mem_singleton]
    rw [hget l] at haccepted
    by_cases hlk : l = k
    · rw [if_pos hlk] at haccepted
      cases haccepted
    · rw [if_neg hlk] at haccepted
      rintro (hmem | heq)
      · exact h.waiting l hl haccepted hmem
      · exact hlk (h.distinct l k hl hused heq)
  · intro l hl hpassive haccepted
    rw [huse l] at hl
    rw [hid l, List.mem_append, List.mem_singleton]
    rw [hget l] at hpassive haccepted
    by_cases hlk : l = k
    · exact Or.inr (by rw [hlk])
    · rw [if_neg hlk] at hpassive haccepted
      exact Or.inl (h.marked l hl hpassive haccepted)
  · rw [List.nodup_append]
    refine ⟨h.once, List.nodup_singleton _, fun c hc d hd heq => ?_⟩
    rw [List.mem_singleton] at hd
    exact h.waiting k hused hnot (hd ▸ heq ▸ hc)

structure Accounted (o : Observed) : Prop where
  ledger : Ledger o.net.tcp o.returned
  stopped : o.intruded = []

variable {o : Observed}

/-- The invariant gives the property. -/
theorem Accounted.acceptCorrect (h : Accounted o) : AcceptCorrect o := by
  refine ⟨fun k hk hnot => ⟨hk, ?_, rfl⟩, h.ledger.once, h.stopped⟩
  cases haccepted : (o.net.tcp.connections k).accepted with
  | false => rfl
  | true => exact absurd (h.ledger.marked k hk.1 hk.2.1 haccepted) hnot

/-- An entry is opened by a SYN. -/
theorem openedEntry_tcpHandleIpv4 {localIp : UInt32} {t : Tcp} {packet : List UInt8} {seq : UInt32}
    {sent : Bool} (hk : openedEntry t (tcpHandleIpv4 localIp t packet seq sent) = some k) :
    ∃ p, tcpParse localIp packet = some p ∧ p.has tcpFlagSyn = true ∧ p.has tcpFlagAck = false ∧
      tcpLookup t p = none ∧ t.firstFree ≠ none ∧ sent = true ∧
      ((tcpHandleIpv4 localIp t packet seq sent).connections k).localPort = p.dstPort := by
  have hnew := List.find?_some hk
  simp only [Bool.and_eq_true, Bool.not_eq_true'] at hnew
  obtain ⟨hfree, hused⟩ := hnew
  unfold tcpHandleIpv4 at hused ⊢
  cases hparse : tcpParse localIp packet with
  | none =>
    rw [hparse] at hused
    exact absurd (hfree.symm.trans hused) Bool.false_ne_true
  | some p =>
    rw [hparse] at hused
    refine ⟨p, rfl, ?_⟩
    simp only at hused ⊢
    unfold tcpHandleSegment at hused ⊢
    cases hlookup : tcpLookup t p with
    | some l =>
      -- the entry of the segment was in use before
      rw [hlookup] at hused
      simp only [Tcp.set_connections] at hused
      split at hused
      · next hkl =>
          have := tcpLookup_used hlookup
          rw [← hkl, hfree] at this
          cases this
      · exact absurd (hfree.symm.trans hused) Bool.false_ne_true
    | none =>
      rw [hlookup] at hused
      simp only at hused ⊢
      split at hused
      · next hsyn =>
          rw [if_pos hsyn]
          simp only [Bool.and_eq_true, Bool.not_eq_true'] at hsyn
          refine ⟨hsyn.1.1, hsyn.1.2, trivial, ?_⟩
          unfold tcpPassiveOpen at hused ⊢
          cases hslot : t.firstFree with
          | none =>
            rw [hslot] at hused
            exact absurd (hfree.symm.trans hused) Bool.false_ne_true
          | some l =>
            rw [hslot] at hused
            refine ⟨by simp, ?_⟩
            cases sent with
            | false =>
              simp only [Bool.not_false, if_true, Tcp.set_connections] at hused
              split at hused
              · cases hused
              · exact absurd (hfree.symm.trans hused) Bool.false_ne_true
            | true =>
              refine ⟨rfl, ?_⟩
              simp only [Bool.not_true, Bool.false_eq_true, if_false,
                Tcp.set_connections] at hused ⊢
              split at hused
              · next hkl => rw [if_pos hkl]
              · exact absurd (hfree.symm.trans hused) Bool.false_ne_true
      · exact absurd (hfree.symm.trans hused) Bool.false_ne_true

/-- Opening a socket leaves the connections alone. -/
theorem socketTcpOpen_tcp (s : Net) (localPort : UInt16) :
    (socketTcpOpen s localPort).2.tcp = s.tcp := by
  have hport : (if localPort = 0 then socketEphemeralPort 1000 s else (localPort, s)).2.tcp = s.tcp := by
    split
    · obtain ⟨port, hport⟩ := socketEphemeralPort_eq 1000 s
      rw [hport]
    · rfl
  unfold socketTcpOpen
  generalize (if localPort = 0 then socketEphemeralPort 1000 s else (localPort, s)) = r at hport
  simp only
  split
  · exact hport
  · split
    · exact hport
    · exact hport

/-- A connect changes one entry. -/
theorem socketTcpConnect_oneEntry (s : Net) (handle : Int) (dst : Option UInt32) (dstPort : UInt16)
    (seq : UInt32) (sent : Bool) :
    ∃ k, OneEntry s.tcp (socketTcpConnect s handle dst dstPort seq sent).tcp k := by
  unfold socketTcpConnect
  split
  · next i ip _ =>
      split
      · exact ⟨0, .same rfl rfl⟩
      · have hone := tcpConnect_oneEntry s.tcp ip dstPort (s.sockets i).localPort seq sent
        simp only
        split
        · exact hone
        · exact hone
  · exact ⟨0, .same rfl rfl⟩

/-- Every step but an accept changes one entry. -/
theorem netStep_oneEntry (s : Net) {a : NetAction} (hne : ∀ handle, a ≠ .accept handle) :
    ∃ k, OneEntry s.tcp (netStep s a).tcp k := by
  cases a with
  | accept handle => exact absurd rfl (hne handle)
  | openTcp localPort =>
    exact ⟨0, .same (by rw [netStep, socketTcpOpen_tcp]) (by rw [netStep, socketTcpOpen_tcp])⟩
  | connect handle dst dstPort seq sent =>
    exact socketTcpConnect_oneEntry s handle dst dstPort seq sent
  | listen handle =>
    simp only [netStep, socketTcpListen]
    split
    · refine ⟨0, .same ?_ ?_⟩ <;>
      · simp only [tcpListenPort]
        split
        · rfl
        · split <;> rfl
    · exact ⟨0, .same rfl rfl⟩
  | send handle data sentBytes =>
    simp only [netStep, socketTcpSend]
    split
    · exact ⟨0, .same rfl rfl⟩
    · split
      · exact ⟨0, .same rfl rfl⟩
      · exact tcpSend_oneEntry _ _ _ _
  | recv handle bufferSize =>
    simp only [netStep, socketTcpRecv]
    split
    · exact ⟨0, .same rfl rfl⟩
    · split
      · exact ⟨0, .same rfl rfl⟩
      · exact tcpRecv_oneEntry _ _ _
  | close handle =>
    simp only [netStep, socketClose]
    split
    · exact ⟨0, .same rfl rfl⟩
    · simp only [Net.set]
      split
      · exact tcpClose_oneEntry _ _
      · exact ⟨0, .same rfl rfl⟩
  | deliver localIp packet seq sent => exact tcpHandleIpv4_oneEntry localIp s.tcp packet seq sent

/-- A step that accepts nothing keeps the invariant. -/
theorem Accounted.moved (h : Accounted o) {s : Net} {listening : SocketSlot → Bool}
    {closedPorts : List UInt16} (hone : ∃ k, OneEntry o.net.tcp s.tcp k) :
    Accounted { o with net := s, listening := listening, closedPorts := closedPorts } := by
  obtain ⟨k, hone⟩ := hone
  exact ⟨h.ledger.oneEntry hone, h.stopped⟩

/-- An accept keeps the invariant. -/
theorem Accounted.accept (h : Accounted o) {handle : Int}
    (hguard : AcceptGuard o (.accept handle)) :
    Accounted { o with net := socketTcpAccept o.net handle,
                       returned := o.returned ++ (acceptedBy o.net (socketTcpAccept o.net handle)).toList } := by
  have haccepts := socketTcpAccept_accepts o.net handle
  generalize socketTcpAccept o.net handle = s at haccepts
  cases haccepts with
  | nothing =>
    rw [acceptedBy_same rfl]
    exact ⟨by simpa using h.ledger, h.stopped⟩
  | lost hi hfull hk => exact absurd hk (hguard _ hi hfull _)
  | given hi hclient hk =>
    rw [acceptedBy_set hclient rfl]
    exact ⟨h.ledger.returns hk.1.1 hk.2.1, h.stopped⟩

/-- A delivery keeps the invariant. -/
theorem Accounted.deliver (h : Accounted o) {localIp : UInt32} {packet : List UInt8} {seq : UInt32}
    {sent : Bool} (hguard : AcceptGuard o (.deliver localIp packet seq sent)) :
    Accounted { o with net := netStep o.net (.deliver localIp packet seq sent),
                       intruded := o.intruded ++ (intrudedBy o (netStep o.net (.deliver localIp packet seq sent))).toList } := by
  have hnone : intrudedBy o (netStep o.net (.deliver localIp packet seq sent)) = none := by
    unfold intrudedBy
    cases hopened : openedEntry o.net.tcp (netStep o.net (.deliver localIp packet seq sent)).tcp with
    | none => rfl
    | some k =>
      obtain ⟨p, hparse, hsyn, hack, hlookup, hfree, hsent, hport⟩ :=
        openedEntry_tcpHandleIpv4 hopened
      have hheard : o.stopped p.dstPort = false := by
        by_contra hstopped
        rcases hguard p hparse hsyn hack (by simpa using hstopped) hlookup with hfull | hunsent
        · exact hfree hfull
        · exact Bool.false_ne_true (hunsent.symm.trans hsent)
      simp only [Option.map_some, netStep, hport]
      rw [Option.filter_some_neg]
      simp [hheard]
  obtain ⟨k, hone⟩ := netStep_oneEntry o.net (a := .deliver localIp packet seq sent) fun _ => by simp
  refine ⟨h.ledger.oneEntry hone, ?_⟩
  simp [hnone, h.stopped]

/-- Every step within its condition keeps the invariant. -/
theorem Accounted.step {o o' : Observed} {a : NetAction} (h : Accounted o)
    (hguard : AcceptGuard o a) (hstep : observedStep o a = some o') : Accounted o' := by
  cases a with
  | accept handle => exact Option.some.inj hstep ▸ h.accept hguard
  | deliver localIp packet seq sent => exact Option.some.inj hstep ▸ h.deliver hguard
  | listen handle =>
    have hone := netStep_oneEntry o.net (a := .listen handle) fun _ => by simp
    simp only [observedStep] at hstep
    split at hstep
    · exact Option.some.inj hstep ▸ h.moved hone
    · exact Option.some.inj hstep ▸ h.moved hone
  | close handle =>
    have hone := netStep_oneEntry o.net (a := .close handle) fun _ => by simp
    simp only [observedStep] at hstep
    split at hstep
    · exact Option.some.inj hstep ▸ h.moved hone
    · exact Option.some.inj hstep ▸ h.moved hone
  | openTcp localPort =>
    exact Option.some.inj hstep ▸ h.moved (netStep_oneEntry o.net (a := .openTcp localPort) fun _ => by simp)
  | connect handle dst dstPort seq sent =>
    exact Option.some.inj hstep ▸
      h.moved (netStep_oneEntry o.net (a := .connect handle dst dstPort seq sent) fun _ => by simp)
  | send handle data sentBytes =>
    exact Option.some.inj hstep ▸ h.moved (netStep_oneEntry o.net (a := .send handle data sentBytes) fun _ => by simp)
  | recv handle bufferSize =>
    exact Option.some.inj hstep ▸ h.moved (netStep_oneEntry o.net (a := .recv handle bufferSize) fun _ => by simp)

/-- The invariant holds at the start. -/
theorem accounted_init : Accounted {} := by
  refine ⟨⟨?_, ?_, by simp, ?_, ?_, List.nodup_nil⟩, rfl⟩
  · intro k hused
    cases hused
  · intro k l hused
    cases hused
  · intro k hused
    cases hused
  · intro k hused
    cases hused

/-- In every run whose accepts find a free socket or no connection, and in which no new peer opens a
connection at a port that nothing listens on, no completed connection is lost or returned twice, and
closed sockets do not listen. -/
theorem acceptCorrect_of_run {actions : List NetAction} {o : Observed}
    (h : RunWhile observedStep AcceptGuard {} actions o) : AcceptCorrect o := by
  have haccounted : Accounted o :=
    h.invariant (fun _ _ _ hguard haccounted hstep => haccounted.step hguard hstep) accounted_init
  exact haccounted.acceptCorrect

def synPacket : List UInt8 :=
  [ 0x00, 0x00, 0x00, 0x00, 0x00, 0x00, 0x00, 0x00, 0x00, 0x00, 0x00, 0x00, 0x00, 0x00, 0x45, 0x00, 0x00,
    0x28, 0x00, 0x00, 0x00, 0x00, 0x40, 0x06, 0x62, 0xC0, 0x0A, 0x00, 0x02, 0x02, 0x0A, 0x00, 0x02, 0x0F,
    0xC3, 0x50, 0x00, 0x50, 0x00, 0x00, 0x03, 0xE8, 0x00, 0x00, 0x00, 0x00, 0x50, 0x02, 0x03, 0xE8, 0xCC,
    0x61, 0x00, 0x00]

def ackPacket : List UInt8 :=
  [ 0x00, 0x00, 0x00, 0x00, 0x00, 0x00, 0x00, 0x00, 0x00, 0x00, 0x00, 0x00, 0x00, 0x00, 0x45, 0x00, 0x00,
    0x28, 0x00, 0x00, 0x00, 0x00, 0x40, 0x06, 0x62, 0xC0, 0x0A, 0x00, 0x02, 0x02, 0x0A, 0x00, 0x02, 0x0F,
    0xC3, 0x50, 0x00, 0x50, 0x00, 0x00, 0x03, 0xE9, 0x00, 0x00, 0x01, 0xF5, 0x50, 0x10, 0x03, 0xE8, 0xCA,
    0x5D, 0x00, 0x00]

def servedActions : List NetAction :=
  [ .openTcp 80, .listen 1, .deliver 0x0A00020F synPacket 500 true, .deliver 0x0A00020F ackPacket 0 true]

def observedFrom (o : Observed) (actions : List NetAction) : Observed :=
  actions.foldl (fun o a => (observedStep o a).getD o) o

/-- Every action is a step. -/
theorem observedStep_isSome (o : Observed) (a : NetAction) : ∃ o', observedStep o a = some o' := by
  cases a with
  | listen handle =>
    simp only [observedStep]
    split
    · exact ⟨_, rfl⟩
    · exact ⟨_, rfl⟩
  | close handle =>
    simp only [observedStep]
    split
    · exact ⟨_, rfl⟩
    · exact ⟨_, rfl⟩
  | openTcp localPort => exact ⟨_, rfl⟩
  | connect handle dst dstPort seq sent => exact ⟨_, rfl⟩
  | accept handle => exact ⟨_, rfl⟩
  | send handle data sentBytes => exact ⟨_, rfl⟩
  | recv handle bufferSize => exact ⟨_, rfl⟩
  | deliver localIp packet seq sent => exact ⟨_, rfl⟩

/-- The observed states are those of a run. -/
theorem run_observedFrom (o : Observed) (actions : List NetAction) :
    Run observedStep o actions (observedFrom o actions) := by
  induction actions generalizing o with
  | nil => exact .nil _
  | cons a actions ih =>
    obtain ⟨o', ho'⟩ := observedStep_isSome o a
    have heq : observedFrom o (a :: actions) = observedFrom o' actions := by
      simp [observedFrom, ho']
    rw [heq]
    exact .cons ho' (ih o')

/-- Without a closed port nothing has stopped listening. -/
theorem observed_stopped_nil (h : o.closedPorts = []) (port : UInt16) : o.stopped port = false := by
  simp [Observed.stopped, h]

theorem acceptCorrect_served : AcceptCorrect (observedFrom {} (servedActions ++ [.accept 1])) := by
  refine @acceptCorrect_of_run (servedActions ++ [.accept 1]) _ ?_
  have hguard : ∀ (o : Observed) (localIp : UInt32) (packet : List UInt8) (seq : UInt32) (sent : Bool),
      o.closedPorts = [] → AcceptGuard o (.deliver localIp packet seq sent) := by
    intro o localIp packet seq sent hclosed p _ _ _ hstopped
    rw [observed_stopped_nil hclosed] at hstopped
    cases hstopped
  have hsockets : socketAllocHandle (observedFrom {} servedActions).net ≠ none := by decide
  exact .cons trivial rfl (.cons trivial rfl (.cons (hguard _ _ _ _ _ rfl) rfl (.cons (hguard _ _ _ _ _ rfl) rfl
    (.cons (fun _ _ hfull => absurd hfull hsockets) rfl (.nil _)))))

/-- With a full socket table the client is lost, and a port is still served when its listening
socket is closed. -/
theorem not_acceptCorrect_runs :
    (∃ o, Run observedStep {} (servedActions ++ List.replicate 15 (.openTcp 0) ++ [.accept 1]) o ∧
      ¬ AcceptCorrect o) ∧
    (∃ o, Run observedStep {} [.openTcp 80, .listen 1, .close 1, .deliver 0x0A00020F synPacket 500 true] o ∧
      ¬ AcceptCorrect o) := by
  refine ⟨⟨_, run_observedFrom _ _, fun h => ?_⟩, ⟨_, run_observedFrom _ _, fun h => ?_⟩⟩
  · have hfull : ((observedFrom {} (servedActions ++ List.replicate 15 (.openTcp 0) ++ [.accept 1])).net.tcp.connections
        0).accepted = true := by decide +kernel
    have hdone : Completed ((observedFrom {} (servedActions ++ List.replicate 15 (.openTcp 0) ++
        [.accept 1])).net.tcp.connections 0) := by
      refine ⟨?_, ?_, ?_⟩
      · decide +kernel
      · decide +kernel
      · decide +kernel
    have hnot : (observedFrom {} (servedActions ++ List.replicate 15 (.openTcp 0) ++ [.accept 1])).returned = [] := by
      decide +kernel
    have hlater := h.acceptable 0 hdone (by rw [hnot]; exact List.not_mem_nil)
    exact Bool.false_ne_true (hlater.2.1.symm.trans hfull)
  · have hopened : (observedFrom {}
        [.openTcp 80, .listen 1, .close 1, .deliver 0x0A00020F synPacket 500 true]).intruded = [80] := by decide
    have := h.stopped
    rw [hopened] at this
    cases this

end Monios.Analysis
