import Monios.Library.Run
import Monios.Model.TcpWait

/-!
# Sockets and their connections

A socket names its connection by the number of an entry.  A reset frees the entry while the socket
still names it, and the next connection that takes it is the one the socket then works on.  The same
happens while `socket_tcp_connect` waits for its SYN to be sent.  `Linked` says that a named entry
that is in use holds the connection that the socket connected or accepted, unless the entry is only
being opened.
-/

set_option autoImplicit false

namespace Monios.Analysis

open Monios.Library Monios.Model

variable {k : TcpSlot} {handle : Int} {c : TcpConnection} {t : Tcp} {i : SocketSlot}

def Names (s : Net) (i : SocketSlot) (k : TcpSlot) : Prop :=
  (s.sockets i).used = true ∧ (s.sockets i).isTcp = true ∧ (s.sockets i).tcpHandle = ((k : Nat) : Int) + 1

/-- No call and no handler waits. -/
def NoneWaits (s : NetWait) : Prop := s.call = none ∧ s.handlers = []

/-- The socket that a step sends or closes for. -/
def actor (s : NetWait) : NetWaitAction → Option SocketSlot
  | .send handle _ => tcpSocket s.net handle
  | .close handle => socketFromHandle s.net handle
  | .resume _ =>
    match s.handlers, s.call with
    | [], some (i, .send _ _ _ _) => some i
    | [], some (i, .close _ _) => some i
    | _, _ => none
  | _ => none

/-- What a socket receives was received on its own connection, what it sends or closes is its own
connection, at every step of the call, and no two sockets have the same one. -/
structure NoConfusion (s : NetWait) : Prop where
  recv : NoneWaits s → ∀ handle i size bytes, tcpSocket s.net handle = some i →
    (socketTcpRecv s.net handle size).1 = some bytes → ∀ x ∈ bytes, (s.net.sockets i).conn = some x.1
  acts : ∀ a i s' k, actor s a = some i → s.step a = some s' → (s.net.tcp.connections k).used = true →
    s'.net.tcp.connections k ≠ s.net.tcp.connections k → (s.net.sockets i).conn = some (s.net.tcp.connections k).id
  own : ∀ i j c, (s.net.sockets i).used = true → (s.net.sockets j).used = true →
    (s.net.sockets i).conn = some c → (s.net.sockets j).conn = some c → i = j

/-- When an open is over and its entry is in use, it is in use by the connection that was opened,
and no other open socket names it.  (A `tcp_passive_open` whose entry another connection has taken
meanwhile opens nothing.) -/
def OpensUnnamed (s : NetWait) : NetWaitAction → Prop
  | .resume true =>
    match s.handlers, s.call with
    | .opened k id :: _, _ =>
      (s.net.tcp.connections k).used = true → (s.net.tcp.connections k).id = id →
        ∀ j, ¬ Names s.net j k
    | [], some (i, .connect k id) => (s.net.tcp.connections k).used = true →
        (s.net.tcp.connections k).id = id ∧ ∀ j, j ≠ i → ¬ Names s.net j k
    | _, _ => True
  | _ => True

/-- The connection `id` is being opened in the entry. -/
def Pending (s : NetWait) (k : TcpSlot) (id : Nat) : Prop :=
  (∃ i, s.call = some (i, .connect k id)) ∨ TcpHandler.opened k id ∈ s.handlers

/-- The sockets and the connections of a table in which the connections `P` are being opened. -/
structure Linked (P : TcpSlot → Nat → Prop) (s : Net) : Prop where
  tags : ∀ k, ∀ x ∈ (s.tcp.connections k).rxBuffer, x.1 = (s.tcp.connections k).id
  link : ∀ i k, Names s i k → (s.tcp.connections k).used = true →
    ¬ P k (s.tcp.connections k).id → (s.sockets i).conn = some (s.tcp.connections k).id
  fresh : ∀ k, (s.tcp.connections k).used = true → (s.tcp.connections k).id < s.tcp.nextId
  distinct : ∀ k l, (s.tcp.connections k).used = true → (s.tcp.connections l).used = true →
    (s.tcp.connections k).id = (s.tcp.connections l).id → k = l
  owned_lt : ∀ i c, (s.sockets i).used = true → (s.sockets i).conn = some c → c < s.tcp.nextId
  unowned : ∀ k, (s.tcp.connections k).used = true → (s.tcp.connections k).passive = true →
    (s.tcp.connections k).accepted = false → ∀ i, (s.sockets i).used = true → (s.sockets i).conn ≠ some (s.tcp.connections k).id
  own : ∀ i j c, (s.sockets i).used = true → (s.sockets j).used = true →
    (s.sockets i).conn = some c → (s.sockets j).conn = some c → i = j

structure Evolves (c c' : TcpConnection) : Prop where
  used : c'.used = true → c.used = true
  ident : c'.used = true → c'.id = c.id
  passive : c'.used = true → c'.passive = c.passive
  accepted : c'.used = true → c'.accepted = false → c.accepted = false
  tags : (∀ x ∈ c.rxBuffer, x.1 = c.id) → ∀ x ∈ c'.rxBuffer, x.1 = c'.id

/-- A connection that is left alone evolves. -/
theorem Evolves.refl (c : TcpConnection) : Evolves c c :=
  ⟨id, fun _ => rfl, fun _ => rfl, fun _ => id, id⟩

theorem Evolves.same {c c' : TcpConnection} (hused : c'.used = c.used) (hid : c'.id = c.id)
    (hpassive : c'.passive = c.passive) (haccepted : c'.accepted = c.accepted)
    (hrx : ∀ x ∈ c'.rxBuffer, x ∈ c.rxBuffer) : Evolves c c' := by
  refine ⟨fun h => hused ▸ h, fun _ => hid, fun _ => hpassive, fun _ h => haccepted ▸ h,
    fun h x hx => ?_⟩
  rw [hid]
  exact h x (hrx x hx)

/-- A connection may be cleared. -/
theorem Evolves.clear (c : TcpConnection) : Evolves c {} :=
  ⟨by simp, by simp, by simp, by simp, by simp⟩

section

variable {s : Net} {P Q : TcpSlot → Nat → Prop}

theorem Tcp.set_connections (t : Tcp) (k l : TcpSlot) (c : TcpConnection) :
    (t.set k c).connections l = if l = k then c else t.connections l := by
  simp [Tcp.set, Function.update_apply]

theorem Net.set_sockets (s : Net) (i j : SocketSlot) (sock : Socket) :
    (s.set i sock).sockets j = if j = i then sock else s.sockets j := by
  simp [Net.set, Function.update_apply]

/-- When a connection evolves, the sockets keep theirs. -/
theorem Linked.evolve (h : Linked P s) (hc : Evolves (s.tcp.connections k) c) :
    Linked P (s.setTcp (s.tcp.set k c)) := by
  have hget : ∀ l, (s.setTcp (s.tcp.set k c)).tcp.connections l =
      if l = k then c else s.tcp.connections l := fun l => Tcp.set_connections s.tcp k l c
  -- an entry in use was in use before, with the same identity
  have hold : ∀ l, Evolves (s.tcp.connections l) ((s.setTcp (s.tcp.set k c)).tcp.connections l) := by
    intro l
    rw [hget l]
    split
    · next heq => exact heq ▸ hc
    · exact Evolves.refl _
  refine ⟨fun l => (hold l).tags (h.tags l), ?_, ?_, ?_, h.owned_lt, ?_, h.own⟩
  · intro i l hname hused hpending
    rw [(hold l).ident hused] at hpending ⊢
    exact h.link i l hname ((hold l).used hused) hpending
  · intro l hused
    rw [(hold l).ident hused]
    exact h.fresh l ((hold l).used hused)
  · intro l m hl hm heq
    rw [(hold l).ident hl, (hold m).ident hm] at heq
    exact h.distinct l m ((hold l).used hl) ((hold m).used hm) heq
  · intro l hused hpassive haccepted i hi
    rw [(hold l).ident hused]
    exact h.unowned l ((hold l).used hused) ((hold l).passive hused ▸ hpassive)
      ((hold l).accepted hused haccepted) i hi

def TakesFin (c : TcpConnection) (p : TcpSegment) : Prop :=
  c.state = .established ∧ p.has tcpFlagRst = false ∧ (p.has tcpFlagAck = true → tcpAckValid c p.ack = true) ∧
    p.seq = c.ackNum ∧ p.has tcpFlagFin = true

inductive Handled (c : TcpConnection) (p : TcpSegment) : TcpConnection → Prop
  | unchanged : Handled c p c
  | cleared : Handled c p {}
  | answered (hstate : c.state = .synSent) (hack : p.ack = c.seqNum) :
      Handled c p { c with state := .established, ackNum := p.seq + 1, remoteSeq := p.seq + 1, remoteAck := p.ack,
                           remoteWindow := p.window }
  | opened (hstate : c.state = .synRcvd) (hack : p.ack = c.seqNum) :
      Handled c p { c with state := .established, remoteAck := p.ack, remoteWindow := p.window }
  | finAcked (hstate : c.state = .finWait1) : Handled c p { c with state := .finWait2 }
  | fin (h : TakesFin c p) : Handled c p { c with state := .closeWait, ackNum := p.seq + 1, remoteSeq := p.seq + 1 }
  | data (hstate : c.state = .established) (hseq : p.seq = c.ackNum) (hfin : p.has tcpFlagFin = false)
      (hlen : p.data.length ≤ 8192) :
      Handled c p
        { c with rxBuffer := c.rxBuffer ++ p.data.map fun b => (c.id, b), rxReady := true,
                 ackNum := p.seq + UInt32.ofNat p.data.length, remoteSeq := p.seq + UInt32.ofNat p.data.length }

/-- What a segment does to the connection it is for. -/
theorem tcpHandleState_handled (c : TcpConnection) (p : TcpSegment) :
    Handled c p (tcpHandleState c p) := by
  unfold tcpHandleState
  cases hstate : c.state with
  | synSent =>
    simp only
    split
    · next h =>
        simp only [Bool.and_eq_true, beq_iff_eq] at h
        exact .answered hstate h.2
    · split
      · exact .cleared
      · exact .unchanged
  | synRcvd =>
    simp only
    split
    · exact .cleared
    · split
      · next h =>
          simp only [Bool.and_eq_true, beq_iff_eq] at h
          exact .opened hstate h.1.2
      · exact .unchanged
  | established =>
    simp only
    split
    · split
      · exact .cleared
      · exact .unchanged
    · next hrst =>
        split
        · exact .unchanged
        · next hack =>
            split
            · exact .unchanged
            · next hseq =>
                have hseq : p.seq = c.ackNum := by simpa using hseq
                split
                · next hfin =>
                    apply Handled.fin
                    refine ⟨hstate, by simpa using hrst, fun h => ?_, hseq, hfin⟩
                    simpa [h] using hack
                · next hfin =>
                    split
                    · next hlen =>
                        have hdata := Handled.data hstate hseq (by simpa using hfin) (p := p) (by omega)
                        simpa only [hstate] using hdata
                    · exact .unchanged
  | finWait1 =>
    simp only
    split
    · split
      · exact .cleared
      · exact .finAcked hstate
    · split
      · exact .cleared
      · exact .unchanged
  | finWait2 =>
    simp only
    split
    · exact .cleared
    · exact .unchanged
  | lastAck =>
    simp only
    split
    · exact .cleared
    · exact .unchanged
  | closed => exact .unchanged
  | closeWait => exact .unchanged
  | timeWait => exact .unchanged

/-- A segment only adds bytes of the connection to its buffer, or clears it. -/
theorem Handled.evolves {c c' : TcpConnection} {p : TcpSegment} (h : Handled c p c') :
    Evolves c c' := by
  cases h with
  | unchanged => exact Evolves.refl c
  | cleared => exact Evolves.clear c
  | answered => exact .same rfl rfl rfl rfl fun _ hx => hx
  | opened => exact .same rfl rfl rfl rfl fun _ hx => hx
  | finAcked => exact .same rfl rfl rfl rfl fun _ hx => hx
  | fin => exact .same rfl rfl rfl rfl fun _ hx => hx
  | data =>
    -- the new bytes are received on this connection
    refine ⟨id, fun _ => rfl, fun _ => rfl, fun _ => id, fun h x hx => ?_⟩
    rcases List.mem_append.mp hx with hx | hx
    · exact h x hx
    · obtain ⟨b, -, rfl⟩ := List.mem_map.mp hx
      rfl

/-- The state machine of `tcp_handle_ipv4` evolves a connection. -/
theorem tcpHandleState_evolves (c : TcpConnection) (p : TcpSegment) :
    Evolves c (tcpHandleState c p) :=
  (tcpHandleState_handled c p).evolves

theorem Tcp.set_self (t : Tcp) (k : TcpSlot) : t.set k (t.connections k) = t := by
  simp [Tcp.set]

structure ActsOn (t t' : Tcp) (handle : Int) : Prop where
  acts : t' = t ∨ ∃ k c, tcpGetConnection t handle = some k ∧ Evolves (t.connections k) c ∧ t' = t.set k c

/-- A call that evolves the connection of its handle acts on this handle only. -/
theorem ActsOn.evolve
    (hk : tcpGetConnection t handle = some k) (hc : Evolves (t.connections k) c) :
    ActsOn t (t.set k c) handle :=
  ⟨Or.inr ⟨k, c, hk, hc, rfl⟩⟩

/-- A handle is an index plus one, of an entry in use. -/
theorem tcpGetConnection_eq (h : tcpGetConnection t handle = some k) :
    ((k : Nat) : Int) + 1 = handle ∧ (t.connections k).used = true := by
  have := List.find?_some h
  simpa using this

/-- `tcp_close` acts on the connection of its handle. -/
theorem tcpClose_actsOn (t : Tcp) (handle : Int) : ActsOn t (tcpClose t handle) handle := by
  unfold tcpClose
  split
  · exact ⟨Or.inl rfl⟩
  · next k hk =>
      simp only
      split
      · exact .evolve hk (.same rfl rfl rfl rfl fun _ hx => hx)
      · exact .evolve hk (.same rfl rfl rfl rfl fun _ hx => hx)
      · exact .evolve hk (Evolves.clear _)

/-- `tcp_recv` acts on the connection of its handle and returns bytes of its buffer. -/
theorem tcpRecv_spec (t : Tcp) (handle : Int) (size : Nat) :
    ActsOn t (tcpRecv t handle size).2 handle ∧
      ∀ bytes, (tcpRecv t handle size).1 = some bytes → bytes ≠ [] →
        ∃ k, tcpGetConnection t handle = some k ∧ ∀ x ∈ bytes, x ∈ (t.connections k).rxBuffer := by
  unfold tcpRecv
  split
  · exact ⟨⟨Or.inl rfl⟩, by simp⟩
  · next k hk =>
      simp only
      split
      · exact ⟨⟨Or.inl rfl⟩, by simp⟩
      · split
        · exact ⟨⟨Or.inl rfl⟩, by simp⟩
        · have hmem : ∀ n, ∀ x ∈ ((t.connections k).rxBuffer.drop (t.connections k).rxReadPos).take n,
              x ∈ (t.connections k).rxBuffer := fun n x hx => List.mem_of_mem_drop (List.mem_of_mem_take hx)
          split
          · refine ⟨.evolve hk (.same rfl rfl rfl rfl (by simp)), ?_⟩
            rintro bytes hbytes -
            exact ⟨k, hk, fun x hx => hmem _ x (Option.some.inj hbytes ▸ hx)⟩
          · refine ⟨.evolve hk (.same rfl rfl rfl rfl fun _ hx => hx), ?_⟩
            rintro bytes hbytes -
            exact ⟨k, hk, fun x hx => hmem _ x (Option.some.inj hbytes ▸ hx)⟩

/-- A call on one handle keeps the links of the others. -/
theorem Linked.actsOn (h : Linked P s) (hacts : ActsOn s.tcp t handle) : Linked P (s.setTcp t) := by
  rcases hacts.acts with rfl | ⟨k, c, -, hc, rfl⟩
  · exact h
  · exact h.evolve hc

/-- What is being opened may become more. -/
theorem Linked.mono (h : Linked P s) (hPQ : ∀ k id, P k id → Q k id) : Linked Q s :=
  { h with link := fun i k hname hused hpending => h.link i k hname hused fun hP => hpending (hPQ _ _ hP) }

/-- What is being opened may become less, where no socket names the entry. -/
theorem Linked.settle (h : Linked P s)
    (hPQ : ∀ k, (s.tcp.connections k).used = true → P k (s.tcp.connections k).id →
      ¬ Q k (s.tcp.connections k).id → ∀ i, ¬ Names s i k) : Linked Q s :=
  { h with
    link := fun i k hname hused hpending =>
      h.link i k hname hused fun hP => hPQ k hused hP hpending i hname }

/-- A socket that names no connection may be put anywhere. -/
theorem Linked.setSocket (h : Linked P s) {sock : Socket}
    (hname : ∀ k : TcpSlot, sock.tcpHandle ≠ ((k : Nat) : Int) + 1) (hconn : sock.conn = none) :
    Linked P (s.set i sock) := by
  have hsock : ∀ j c, ((s.set i sock).sockets j).conn = some c → j ≠ i ∧ (s.set i sock).sockets j =
      s.sockets j := by
    intro j c hc
    rw [Net.set_sockets] at hc ⊢
    by_cases hj : j = i
    · rw [if_pos hj, hconn] at hc
      simp at hc
    · exact ⟨hj, if_neg hj⟩
  refine ⟨h.tags, ?_, h.fresh, h.distinct, ?_, ?_, ?_⟩
  · rintro j k ⟨hused, htcp, hhandle⟩ hk hpending
    rw [Net.set_sockets] at hused htcp hhandle ⊢
    by_cases hj : j = i
    · rw [if_pos hj] at hhandle
      exact absurd hhandle (hname k)
    · rw [if_neg hj] at hused htcp hhandle ⊢
      exact h.link j k ⟨hused, htcp, hhandle⟩ hk hpending
  · intro j c hused hc
    obtain ⟨-, heq⟩ := hsock j c hc
    rw [heq] at hused hc
    exact h.owned_lt j c hused hc
  · intro k hused hpassive haccepted j hj hc
    obtain ⟨-, heq⟩ := hsock j _ hc
    rw [heq] at hj hc
    exact h.unowned k hused hpassive haccepted j hj hc
  · intro j l c hj hl hcj hcl
    obtain ⟨-, heqj⟩ := hsock j c hcj
    obtain ⟨-, heql⟩ := hsock l c hcl
    rw [heqj] at hj hcj
    rw [heql] at hl hcl
    exact h.own j l c hj hl hcj hcl

/-- A socket may be given a connection that it opened or accepted. -/
theorem Linked.setOwner (h : Linked P s) (i : SocketSlot) (k : TcpSlot) (sock : Socket)
    (hhandle : sock.tcpHandle = ((k : Nat) : Int) + 1)
    (hconn : sock.conn = some (s.tcp.connections k).id) (hused : (s.tcp.connections k).used = true)
    (haccepted : (s.tcp.connections k).passive = true → (s.tcp.connections k).accepted = true)
    (howner : ∀ j, j ≠ i → (s.sockets j).used = true →
      (s.sockets j).conn ≠ some (s.tcp.connections k).id) :
    Linked P (s.set i sock) := by
  have hcases : ∀ j, (j = i ∧ (s.set i sock).sockets j = sock) ∨
      (j ≠ i ∧ (s.set i sock).sockets j = s.sockets j) := by
    intro j
    rw [Net.set_sockets]
    by_cases hj : j = i
    · exact Or.inl ⟨hj, if_pos hj⟩
    · exact Or.inr ⟨hj, if_neg hj⟩
  refine ⟨h.tags, ?_, h.fresh, h.distinct, ?_, ?_, ?_⟩
  · rintro j l ⟨hu, ht, hh⟩ hl hpending
    rcases hcases j with ⟨rfl, heq⟩ | ⟨hne, heq⟩
    · rw [heq] at hh ⊢
      have : k = l := by
        rw [hhandle] at hh
        exact Fin.ext (by omega)
      subst this
      exact hconn
    · rw [heq] at hu ht hh ⊢
      exact h.link j l ⟨hu, ht, hh⟩ hl hpending
  · intro j c hu hc
    rcases hcases j with ⟨rfl, heq⟩ | ⟨hne, heq⟩
    · rw [heq, hconn] at hc
      exact Option.some.inj hc ▸ h.fresh k hused
    · rw [heq] at hu hc
      exact h.owned_lt j c hu hc
  · intro l hl hpassive hnot j hj hc
    rcases hcases j with ⟨rfl, heq⟩ | ⟨hne, heq⟩
    · rw [heq, hconn] at hc
      have : k = l := h.distinct k l hused hl (Option.some.inj hc)
      subst this
      exact absurd (hnot.symm.trans (haccepted hpassive)) Bool.false_ne_true
    · rw [heq] at hj hc
      exact h.unowned l hl hpassive hnot j hj hc
  · intro j l c hj hl hcj hcl
    rcases hcases j with ⟨rfl, heqj⟩ | ⟨hnej, heqj⟩
    · rcases hcases l with ⟨rfl, -⟩ | ⟨hnel, heql⟩
      · rfl
      · rw [heqj, hconn] at hcj
        rw [heql] at hl hcl
        exact absurd (hcl.trans hcj.symm) (howner l hnel hl)
    · rcases hcases l with ⟨rfl, heql⟩ | ⟨hnel, heql⟩
      · rw [heql, hconn] at hcl
        rw [heqj] at hj hcj
        exact absurd (hcj.trans hcl.symm) (howner j hnej hj)
      · rw [heqj] at hj hcj
        rw [heql] at hl hcl
        exact h.own j l c hj hl hcj hcl

/-- A new connection takes an entry; it is being opened. -/
theorem Linked.take (h : Linked P s) (hrx : c.rxBuffer = []) (hP : ∀ l id, P l id → Q l id)
    (hk : Q k s.tcp.nextId) :
    Linked Q (s.setTcp (s.tcp.take k c)) := by
  have hget : ∀ l, (s.setTcp (s.tcp.take k c)).tcp.connections l =
      if l = k then { c with id := s.tcp.nextId } else s.tcp.connections l :=
    fun l => Tcp.set_connections _ k l _
  refine ⟨?_, ?_, ?_, ?_, ?_, ?_, h.own⟩
  · intro l x hx
    rw [hget l] at hx ⊢
    by_cases hl : l = k
    · rw [if_pos hl] at hx
      simp [hrx] at hx
    · rw [if_neg hl] at hx ⊢
      exact h.tags l x hx
  · intro i l hi hl hpending
    rw [hget l] at hl hpending ⊢
    by_cases hlk : l = k
    · rw [if_pos hlk] at hpending
      exact absurd (hlk ▸ hk) hpending
    · rw [if_neg hlk] at hl hpending ⊢
      exact h.link i l hi hl fun hPl => hpending (hP _ _ hPl)
  · intro l hl
    rw [hget l] at hl ⊢
    show _ < s.tcp.nextId + 1
    by_cases hlk : l = k
    · rw [if_pos hlk]
      exact Nat.lt_succ_self _
    · rw [if_neg hlk] at hl ⊢
      exact Nat.lt_succ_of_lt (h.fresh l hl)
  · intro l m hl hm heq
    rw [hget l] at hl heq
    rw [hget m] at hm heq
    by_cases hlk : l = k <;> by_cases hmk : m = k
    · rw [hlk, hmk]
    · rw [if_pos hlk, if_neg hmk] at heq
      rw [if_neg hmk] at hm
      have := h.fresh m hm
      dsimp only at heq
      omega
    · rw [if_neg hlk, if_pos hmk] at heq
      rw [if_neg hlk] at hl
      have := h.fresh l hl
      dsimp only at heq
      omega
    · rw [if_neg hlk, if_neg hmk] at heq
      rw [if_neg hlk] at hl
      rw [if_neg hmk] at hm
      exact h.distinct l m hl hm heq
  · intro i c' hi hc'
    exact Nat.lt_succ_of_lt (h.owned_lt i c' hi hc')
  · intro l hl hpassive hnot i hi hc
    rw [hget l] at hl hpassive hnot hc
    by_cases hlk : l = k
    · rw [if_pos hlk] at hc
      exact absurd (h.owned_lt i _ hi hc) (lt_irrefl _)
    · rw [if_neg hlk] at hl hpassive hnot hc
      exact h.unowned l hl hpassive hnot i hi hc

/-- The search for a port changes the next port only. -/
theorem tcpAllocEphemeralPort_eq (rounds : Nat) (t : Tcp) :
    ∃ port, (tcpAllocEphemeralPort rounds t).2 = { t with nextEphemeralPort := port } := by
  induction rounds generalizing t with
  | zero => exact ⟨t.nextEphemeralPort, rfl⟩
  | succ rounds ih =>
    simp only [tcpAllocEphemeralPort]
    generalize (if t.nextEphemeralPort + 1 < 49152 then 49152 else t.nextEphemeralPort + 1) = next
    split
    · exact ⟨next, rfl⟩
    · exact ih { t with nextEphemeralPort := next }

inductive Connects (t : Tcp) : Option TcpSlot × Tcp → Prop
  | failed (port : UInt16) : Connects t (none, { t with nextEphemeralPort := port })
  | taken (port : UInt16) {k : TcpSlot} {c : TcpConnection} (hk : t.firstFree = some k) (hid : c.id = t.nextId)
      (hrx : c.rxBuffer = []) (hpassive : c.passive = false) :
      Connects t (if c.used then some k else none,
        { t with nextEphemeralPort := port, nextId := t.nextId + 1 }.set k c)

theorem tcpConnectFrom_connects (t : Tcp) (port : UInt16) (remoteIp : UInt32)
    (remotePort localPort : UInt16) (seq : UInt32) (sent : Bool) :
    Connects t (tcpConnectFrom { t with nextEphemeralPort := port } remoteIp remotePort localPort seq sent) := by
  have hfree : ({ t with nextEphemeralPort := port } : Tcp).firstFree = t.firstFree := rfl
  unfold tcpConnectFrom
  rw [hfree]
  cases hk : t.firstFree with
  | none => exact .failed port
  | some k =>
    cases sent with
    | false =>
      let c : TcpConnection :=
        { used := false, state := .synSent, remoteIp := remoteIp, remotePort := remotePort, localPort := localPort,
          seqNum := seq, id := t.nextId }
      exact .taken (c := c) port hk rfl rfl rfl
    | true =>
      let c : TcpConnection :=
        { used := true, state := .synSent, remoteIp := remoteIp, remotePort := remotePort, localPort := localPort,
          seqNum := seq + 1, id := t.nextId }
      exact .taken (c := c) port hk rfl rfl rfl

/-- `tcp_connect` fills one free entry with a fresh identity, or none. -/
theorem tcpConnect_connects (t : Tcp) (remoteIp : UInt32) (remotePort localPort : UInt16)
    (seq : UInt32) (sent : Bool) :
    Connects t (tcpConnect t remoteIp remotePort localPort seq sent) := by
  unfold tcpConnect
  split
  · exact .failed t.nextEphemeralPort
  · split
    · obtain ⟨port, hport⟩ := tcpAllocEphemeralPort_eq 1000 t
      simp only [hport]
      split
      · exact .failed port
      · exact tcpConnectFrom_connects t port _ _ _ _ _
    · split
      · exact .failed t.nextEphemeralPort
      · exact tcpConnectFrom_connects t t.nextEphemeralPort _ _ _ _ _

/-- The socket behind a handle is in use and a TCP socket. -/
theorem tcpSocket_eq (h : tcpSocket s handle = some i) :
    socketFromHandle s handle = some i ∧ (s.sockets i).used = true ∧
      (s.sockets i).isTcp = true := by
  unfold tcpSocket at h
  obtain ⟨hfrom, htcp⟩ := Option.filter_eq_some_iff.mp h
  have := List.find?_some hfrom
  simp only [Bool.and_eq_true] at this
  exact ⟨hfrom, this.2, htcp⟩

theorem socketEphemeralPort_eq (rounds : Nat) (s : Net) :
    ∃ port, (socketEphemeralPort rounds s).2 = { s with nextPort := port } := by
  induction rounds generalizing s with
  | zero => exact ⟨s.nextPort, rfl⟩
  | succ rounds ih =>
    simp only [socketEphemeralPort]
    generalize (if s.nextPort + 1 < 49152 then 49152 else s.nextPort + 1) = next
    split
    · exact ⟨next, rfl⟩
    · exact ih { s with nextPort := next }

/-- Opening a socket keeps the links: it names no connection yet. -/
theorem Linked.socketTcpOpen (h : Linked P s) (localPort : UInt16) :
    Linked P (Model.socketTcpOpen s localPort).2 := by
  have hport : ∃ port, (if localPort = 0 then socketEphemeralPort 1000 s else (localPort, s)).2 =
      { s with nextPort := port } := by
    split
    · exact socketEphemeralPort_eq 1000 s
    · exact ⟨s.nextPort, rfl⟩
  obtain ⟨port, hport⟩ := hport
  have hs : Linked P { s with nextPort := port } := ⟨h.tags, h.link, h.fresh, h.distinct, h.owned_lt, h.unowned, h.own⟩
  unfold Model.socketTcpOpen
  generalize (if localPort = 0 then socketEphemeralPort 1000 s else (localPort, s)) = r at hport
  simp only [hport]
  split
  · exact hs
  · split
    · exact hs
    · refine hs.setSocket (fun k => ?_) rfl
      simp only
      omega

theorem Linked.withPort (h : Linked P s) (port : UInt16) :
    Linked P (s.setTcp { s.tcp with nextEphemeralPort := port }) :=
  ⟨h.tags, h.link, h.fresh, h.distinct, h.owned_lt, h.unowned, h.own⟩

/-- An accepted connection was handed out to no other socket. -/
theorem Linked.socketTcpAccept (h : Linked P s) (handle : Int) :
    Linked P (Model.socketTcpAccept s handle) := by
  unfold Model.socketTcpAccept
  split
  · exact h
  · next i hi =>
      unfold tcpAcceptReady
      cases hready : (List.finRange 4).find? fun k =>
          let c := s.tcp.connections k
          c.used && c.passive && !c.accepted && c.localPort == (s.sockets i).localPort && decide (c.state = .established) with
      | none => exact h
      | some k =>
        have hk := List.find?_some hready
        simp only [Bool.and_eq_true, Bool.not_eq_true'] at hk
        obtain ⟨⟨⟨⟨hused, hpassive⟩, haccepted⟩, -⟩, -⟩ := hk
        -- the entry is marked as handed out before the socket is made
        have hmark : Linked P (s.setTcp (s.tcp.set k { s.tcp.connections k with accepted := true })) :=
          h.evolve ⟨fun _ => hused, fun _ => rfl, fun _ => rfl, by simp, fun ht => ht⟩
        simp only
        split
        · exact hmark
        · next client hclient =>
            refine hmark.setOwner client k _ rfl (by simp [Net.setTcp, Tcp.set])
              (by simpa [Net.setTcp, Tcp.set] using hused)
              (by simp [Net.setTcp, Tcp.set]) ?_
            intro j _ hj hc
            simp only [Net.setTcp, Tcp.set, Function.update_self] at hc
            exact h.unowned k hused hpassive haccepted j hj hc

/-- Listening changes no connection. -/
theorem Linked.socketTcpListen (h : Linked P s) (handle : Int) :
    Linked P (Model.socketTcpListen s handle) := by
  unfold Model.socketTcpListen
  split
  · next i _ =>
      have hlisten : ∃ ports, (tcpListenPort s.tcp (s.sockets i).localPort).2 =
          { s.tcp with listeners := ports } := by
        unfold tcpListenPort
        split
        · exact ⟨s.tcp.listeners, rfl⟩
        · split
          · exact ⟨_, rfl⟩
          · exact ⟨s.tcp.listeners, rfl⟩
      obtain ⟨ports, hports⟩ := hlisten
      rw [hports]
      exact ⟨h.tags, h.link, h.fresh, h.distinct, h.owned_lt, h.unowned, h.own⟩
  · exact h

/-- The connection `id` was made for the entry, and nothing else has its identity. -/
structure Opening (s : Net) (k : TcpSlot) (id : Nat) : Prop where
  lt : id < s.tcp.nextId
  only : ∀ l, (s.tcp.connections l).used = true → (s.tcp.connections l).id = id → l = k ∧ (s.tcp.connections l).passive = false
  unowned : ∀ j, (s.sockets j).used = true → (s.sockets j).conn ≠ some id

/-- The entry that a call is opening stays its own when entries evolve. -/
theorem Opening.evolve {id : Nat} {l : TcpSlot} (h : Opening s k id)
    (hc : Evolves (s.tcp.connections l) c) :
    Opening (s.setTcp (s.tcp.set l c)) k id := by
  refine ⟨h.lt, ?_, h.unowned⟩
  intro m hm hid
  simp only [Net.setTcp, Tcp.set_connections] at hm hid ⊢
  by_cases hml : m = l
  · subst hml
    rw [if_pos rfl] at hm hid ⊢
    rw [hc.passive hm]
    exact h.only m (hc.used hm) ((hc.ident hm).symm.trans hid)
  · rw [if_neg hml] at hm hid ⊢
    exact h.only m hm hid

/-- The entry that a call is opening stays its own when another one is taken. -/
theorem Opening.take {id : Nat} {l : TcpSlot} (h : Opening s k id) :
    Opening (s.setTcp (s.tcp.take l c)) k id := by
  refine ⟨Nat.lt_succ_of_lt h.lt, ?_, h.unowned⟩
  intro m hm hid
  simp only [Net.setTcp, Tcp.take, Tcp.set_connections] at hm hid ⊢
  by_cases hml : m = l
  · rw [if_pos hml] at hid
    exact absurd hid h.lt.ne'
  · rw [if_neg hml] at hm hid ⊢
    exact h.only m hm hid

/-- The entry that a connect has filled is nobody's but the call's. -/
theorem Linked.opening (h : Linked P s) (hpassive : c.passive = false) :
    Opening (s.setTcp (s.tcp.take k c)) k s.tcp.nextId := by
  refine ⟨Nat.lt_succ_self _, ?_, fun j hj hc => lt_irrefl _ (h.owned_lt j _ hj hc)⟩
  intro m hm hid
  simp only [Net.setTcp, Tcp.take, Tcp.set_connections] at hm hid ⊢
  by_cases hmk : m = k
  · rw [if_pos hmk]
    exact ⟨hmk, hpassive⟩
  · rw [if_neg hmk] at hm hid
    exact absurd hid (h.fresh m hm).ne

/-- The socket gets the entry it has opened. -/
theorem Linked.connected (h : Linked P s) {id : Nat} (hopening : Opening s k id)
    (hQ : ∀ l, (s.tcp.connections l).used = true → P l (s.tcp.connections l).id → l = k)
    (hname : (s.tcp.connections k).used = true → (s.tcp.connections k).id = id ∧ ∀ j, j ≠ i →
      ¬ Names s j k) :
    Linked Q (s.set i { s.sockets i with tcpHandle := ((k : Nat) : Int) + 1, conn := some id }) := by
  have hcases : ∀ j, (j = i ∧ (s.set i { s.sockets i with tcpHandle := ((k : Nat) : Int) + 1, conn := some id }).sockets j =
        { s.sockets i with tcpHandle := ((k : Nat) : Int) + 1, conn := some id }) ∨
      (j ≠ i ∧ (s.set i { s.sockets i with tcpHandle := ((k : Nat) : Int) + 1, conn := some id }).sockets j = s.sockets j) := by
    intro j
    rw [Net.set_sockets]
    by_cases hj : j = i
    · exact Or.inl ⟨hj, if_pos hj⟩
    · exact Or.inr ⟨hj, if_neg hj⟩
  refine ⟨h.tags, ?_, h.fresh, h.distinct, ?_, ?_, ?_⟩
  · rintro j l ⟨hu, ht, hh⟩ hl -
    rcases hcases j with ⟨rfl, heq⟩ | ⟨hne, heq⟩
    · rw [heq] at hh ⊢
      have : l = k := by
        dsimp only at hh
        exact Fin.ext (by omega)
      subst this
      exact congrArg some (hname hl).1.symm
    · rw [heq] at hu ht hh ⊢
      refine h.link j l ⟨hu, ht, hh⟩ hl fun hP => ?_
      obtain rfl := hQ l hl hP
      exact (hname hl).2 j hne ⟨hu, ht, hh⟩
  · intro j c hu hc
    rcases hcases j with ⟨rfl, heq⟩ | ⟨hne, heq⟩
    · rw [heq] at hc
      exact Option.some.inj hc ▸ hopening.lt
    · rw [heq] at hu hc
      exact h.owned_lt j c hu hc
  · intro l hl hpassive hnot j hj hc
    rcases hcases j with ⟨rfl, heq⟩ | ⟨hne, heq⟩
    · rw [heq] at hc
      have := (hopening.only l hl (Option.some.inj hc).symm).2
      exact Bool.false_ne_true (this.symm.trans hpassive)
    · rw [heq] at hj hc
      exact h.unowned l hl hpassive hnot j hj hc
  · intro j l c hj hl hcj hcl
    rcases hcases j with ⟨rfl, heqj⟩ | ⟨hnej, heqj⟩
    · rcases hcases l with ⟨rfl, -⟩ | ⟨hnel, heql⟩
      · rfl
      · rw [heqj] at hcj
        rw [heql] at hl hcl
        exact absurd (hcl.trans hcj.symm) (hopening.unowned l hl)
    · rcases hcases l with ⟨rfl, heql⟩ | ⟨hnel, heql⟩
      · rw [heql] at hcl
        rw [heqj] at hj hcj
        exact absurd (hcj.trans hcl.symm) (hopening.unowned j hj)
      · rw [heqj] at hj hcj
        rw [heql] at hl hcl
        exact h.own j l c hj hl hcj hcl

end

/-! ## What the calls do up to their waits -/

/-- `tcp_connect` fails, or takes an entry for the new connection. -/
inductive ConnectBegins (t : Tcp) : Option TcpSlot × Tcp → Prop
  | failed (port : UInt16) : ConnectBegins t (none, { t with nextEphemeralPort := port })
  | taken (port : UInt16) (k : TcpSlot) (c : TcpConnection) (hrx : c.rxBuffer = []) (hpassive : c.passive = false) :
      ConnectBegins t (some k, ({ t with nextEphemeralPort := port } : Tcp).take k c)

/-- `tcp_connect` up to its wait fills one free entry, or none. -/
theorem tcpConnectBegin_begins (t : Tcp) (remoteIp : UInt32) (remotePort localPort : UInt16)
    (seq : UInt32) :
    ConnectBegins t (tcpConnectBegin t remoteIp remotePort localPort seq) := by
  have hport : ∃ port, (tcpConnectPort t remotePort localPort).2 =
      { t with nextEphemeralPort := port } := by
    unfold tcpConnectPort
    split
    · exact ⟨t.nextEphemeralPort, rfl⟩
    · split
      · obtain ⟨port, hport⟩ := tcpAllocEphemeralPort_eq 1000 t
        refine ⟨port, ?_⟩
        dsimp only
        split
        · exact hport
        · exact hport
      · split
        · exact ⟨t.nextEphemeralPort, rfl⟩
        · exact ⟨t.nextEphemeralPort, rfl⟩
  obtain ⟨port, hport⟩ := hport
  unfold tcpConnectBegin
  generalize tcpConnectPort t remotePort localPort = r at hport
  obtain ⟨r₁, r₂⟩ := r
  dsimp only at hport
  subst hport
  cases r₁ with
  | none => exact .failed port
  | some p =>
    dsimp only
    split
    · exact .failed port
    · exact .taken port _ _ rfl rfl

/-- `tcp_close` up to its wait acts on the connection of its handle. -/
theorem tcpCloseBegin_actsOn (t : Tcp) (handle : Int) :
    ActsOn t (tcpCloseBegin t handle).2 handle := by
  unfold tcpCloseBegin
  split
  · exact ⟨Or.inl rfl⟩
  · next k hk =>
      dsimp only
      split
      · exact .evolve hk (.same rfl rfl rfl rfl fun _ hx => hx)
      · exact .evolve hk (.same rfl rfl rfl rfl fun _ hx => hx)
      · exact .evolve hk (Evolves.clear _)

/-- The close that waits is for the connection of the handle. -/
theorem tcpCloseBegin_call {call : TcpCall} (h : (tcpCloseBegin t handle).1 = some call) :
    ∃ k id, call = .close k id ∧ tcpGetConnection t handle = some k := by
  unfold tcpCloseBegin at h
  split at h
  · exact nomatch h
  · next k hk =>
      dsimp only at h
      split at h
      · exact ⟨k, _, (Option.some.inj h).symm, hk⟩
      · exact ⟨k, _, (Option.some.inj h).symm, hk⟩
      · exact nomatch h

/-- The send that waits is for the connection of the handle. -/
theorem tcpSendBegin_call {len : Nat} {call : TcpCall} (h : tcpSendBegin t handle len = some call) :
    ∃ k id, call = .send k id 0 len ∧ tcpGetConnection t handle = some k := by
  unfold tcpSendBegin at h
  split at h
  · exact nomatch h
  · next k hk =>
      split at h
      · exact nomatch h
      · exact ⟨k, _, (Option.some.inj h).symm, hk⟩

/-- A handler changes one entry as `tcp_handle_ipv4` may, or takes one for a connection that the
peer opens. -/
inductive HandlerBegins (t : Tcp) : Option TcpHandler × Tcp → Prop
  | same : HandlerBegins t (none, t)
  | changed (h : Option TcpHandler) (k : TcpSlot) (c : TcpConnection) (hc : Evolves (t.connections k) c)
      (hopened : ∀ l id, h ≠ some (.opened l id)) : HandlerBegins t (h, t.set k c)
  | opened (k : TcpSlot) (c : TcpConnection) (hrx : c.rxBuffer = []) :
      HandlerBegins t (some (.opened k t.nextId), t.take k c)

/-- `tcp_handle_ipv4` up to its wait evolves entries and fills at most one. -/
theorem tcpHandleBegin_begins (localIp : UInt32) (t : Tcp) (packet : List UInt8) (seq : UInt32) :
    HandlerBegins t (tcpHandleBegin localIp t packet seq) := by
  unfold tcpHandleBegin
  split
  · next p _ =>
      unfold tcpHandleSegmentBegin
      split
      · next k _ =>
          unfold tcpHandleStateBegin
          dsimp only
          split
          · exact .changed _ k _ (.same rfl rfl rfl rfl fun _ hx => hx) fun _ _ h => nomatch h
          · exact .changed _ k _ (tcpHandleState_evolves _ _) fun _ _ h => nomatch h
      · split
        · unfold tcpPassiveBegin
          split
          · exact .same
          · exact .opened _ _ rfl
        · exact .same
  · exact .same

/-! ## What every step keeps -/

/-- The sockets and connections are linked, and the waiting call has what it is for. -/
structure Consistent (s : NetWait) : Prop where
  linked : Linked (Pending s) s.net
  connect : ∀ i k id, s.call = some (i, .connect k id) → Opening s.net k id
  send : ∀ i k id offset len, s.call = some (i, .send k id offset len) → Names s.net i k
  close : ∀ i k id, s.call = some (i, .close k id) → Names s.net i k

section

variable {s s' : NetWait} {n : Net}

theorem Linked.consistent (h : Linked (Pending { net := n }) n) : Consistent { net := n } :=
  ⟨h, by simp, by simp, by simp⟩

theorem not_pending_of_noneWaits (hidle : NoneWaits s) (k : TcpSlot) (id : Nat) :
    ¬ Pending s k id := by
  rintro (⟨i, hcall⟩ | hmem)
  · exact nomatch hidle.1.symm.trans hcall
  · rw [hidle.2] at hmem
    exact nomatch hmem

/-- The begin of a connect on a socket without a connection. -/
theorem Consistent.socketTcpConnectBegin (h : Linked (Pending { net := n }) n) (handle : Int)
    (dst : Option UInt32) (dstPort : UInt16) (seq : UInt32) :
    Consistent (Model.socketTcpConnectBegin n handle dst dstPort seq) := by
  unfold Model.socketTcpConnectBegin
  split
  · next i ip _ =>
      have hbegin := tcpConnectBegin_begins n.tcp ip dstPort (n.sockets i).localPort seq
      generalize tcpConnectBegin n.tcp ip dstPort (n.sockets i).localPort seq = r at hbegin
      cases hbegin with
      | failed port => exact (h.withPort port).consistent
      | taken port k c hrx hpassive =>
        have hport := h.withPort port
        have hid : ((n.setTcp (({ n.tcp with nextEphemeralPort := port } : Tcp).take k c)).tcp.connections k).id =
            n.tcp.nextId := by
          simp [Net.setTcp, Tcp.take, Tcp.set_connections]
        refine ⟨?_, ?_, by simp, by simp⟩
        · refine hport.take hrx (fun l id hP => absurd hP (not_pending_of_noneWaits ⟨rfl, rfl⟩ l id)) (Or.inl ⟨i, ?_⟩)
          exact congrArg (fun id => some (i, TcpCall.connect k id)) hid
        · intro j l id hcall
          simp only [Option.map_some, Option.some.injEq, Prod.mk.injEq,
            TcpCall.connect.injEq] at hcall
          obtain ⟨-, rfl, rfl⟩ := hcall
          rw [show ((({ n.tcp with nextEphemeralPort := port } : Tcp).take k c).connections k).id = n.tcp.nextId from hid]
          exact hport.opening hpassive
  · exact h.consistent

theorem names_of_tcpSocket (hi : tcpSocket n handle = some i)
    (hk : tcpGetConnection t (n.sockets i).tcpHandle = some k) :
    Names n i k :=
  ⟨(tcpSocket_eq hi).2.1, (tcpSocket_eq hi).2.2, (tcpGetConnection_eq hk).1.symm⟩

/-- The begin of a send. -/
theorem Consistent.socketTcpSendBegin (h : Linked (Pending { net := n }) n) (handle : Int)
    (len : Nat) :
    Consistent (Model.socketTcpSendBegin n handle len) := by
  unfold Model.socketTcpSendBegin
  split
  · exact h.consistent
  · next i hi =>
      split
      · exact h.consistent
      · cases hcall : tcpSendBegin n.tcp (n.sockets i).tcpHandle len with
        | none => exact h.consistent
        | some call =>
          obtain ⟨k, id, rfl, hk⟩ := tcpSendBegin_call hcall
          refine ⟨h.mono fun l id hP => absurd hP (not_pending_of_noneWaits ⟨rfl, rfl⟩ l id),
            fun _ _ _ h => ?_,
            fun j l id' offset len' hcall' => ?_, fun _ _ _ h => ?_⟩
          · simp at h
          · simp only [Option.map_some, Option.some.injEq, Prod.mk.injEq,
              TcpCall.send.injEq] at hcall'
            obtain ⟨rfl, rfl, -⟩ := hcall'
            exact names_of_tcpSocket hi hk
          · simp at h

/-- The begin of a close. -/
theorem Consistent.socketCloseBegin (h : Linked (Pending { net := n }) n) (handle : Int) :
    Consistent (Model.socketCloseBegin n handle) := by
  have hnone : ∀ k : TcpSlot, ({} : Socket).tcpHandle ≠ ((k : Nat) : Int) + 1 := by
    intro k
    show (0 : Int) ≠ _
    omega
  unfold Model.socketCloseBegin
  split
  · exact h.consistent
  · next i hi =>
      split
      · next htcp =>
          have hacts := tcpCloseBegin_actsOn n.tcp (n.sockets i).tcpHandle
          have hcall : ∀ call, (tcpCloseBegin n.tcp (n.sockets i).tcpHandle).1 = some call →
              ∃ k id, call = .close k id ∧ tcpGetConnection n.tcp (n.sockets i).tcpHandle = some k :=
            fun _ => tcpCloseBegin_call
          generalize tcpCloseBegin n.tcp (n.sockets i).tcpHandle = r at hacts hcall
          obtain ⟨r₁, r₂⟩ := r
          cases r₁ with
          | none => exact ((h.actsOn hacts).setSocket hnone rfl).consistent
          | some call =>
            obtain ⟨k, id, rfl, hk⟩ := hcall call rfl
            refine ⟨(h.actsOn hacts).mono fun l id hP => absurd hP (not_pending_of_noneWaits ⟨rfl, rfl⟩ l id), fun _ _ _ h => ?_,
              fun _ _ _ _ _ h => ?_, fun j l id' hcall' => ?_⟩
            · simp at h
            · simp at h
            · simp only [Option.some.injEq, Prod.mk.injEq, TcpCall.close.injEq] at hcall'
              obtain ⟨rfl, rfl, -⟩ := hcall'
              have hused := List.find?_some hi
              simp only [Bool.and_eq_true] at hused
              exact ⟨hused.2, htcp.1, (tcpGetConnection_eq hk).1.symm⟩
      · exact (h.setSocket hnone rfl).consistent

/-- The begin of every call keeps the state consistent. -/
theorem Consistent.begin (h : Linked (Pending { net := n }) n) (a : NetWaitAction) :
    Consistent (NetWait.begin n a) := by
  cases a with
  | openTcp localPort => exact (h.socketTcpOpen localPort).consistent
  | connect handle dst dstPort seq =>
    exact Consistent.socketTcpConnectBegin h handle dst dstPort seq
  | listen handle => exact (h.socketTcpListen handle).consistent
  | accept handle => exact (h.socketTcpAccept handle).consistent
  | send handle len => exact Consistent.socketTcpSendBegin h handle len
  | recv handle bufferSize =>
    refine Linked.consistent (n := (socketTcpRecv n handle bufferSize).2) ?_
    unfold socketTcpRecv
    split
    · exact h
    · split
      · exact h
      · exact h.actsOn (tcpRecv_spec _ _ _).1
  | close handle => exact Consistent.socketCloseBegin h handle
  | deliver localIp packet seq => exact h.consistent
  | resume sent => exact h.consistent

/-- A packet keeps the state consistent, also in the middle of a call. -/
theorem Consistent.deliver (h : Consistent s) (localIp : UInt32) (packet : List UInt8)
    (seq : UInt32) :
    Consistent { s with
      net := s.net.setTcp (tcpHandleBegin localIp s.net.tcp packet seq).2
      handlers := (tcpHandleBegin localIp s.net.tcp packet seq).1.toList ++ s.handlers } := by
  have hbegin := tcpHandleBegin_begins localIp s.net.tcp packet seq
  generalize tcpHandleBegin localIp s.net.tcp packet seq = r at hbegin
  cases hbegin with
  | same => exact ⟨h.linked, h.connect, h.send, h.close⟩
  | changed handler k c hc hopened =>
    refine ⟨(h.linked.evolve hc).mono ?_, fun i l id hcall => (h.connect i l id hcall).evolve hc,
      h.send, h.close⟩
    exact fun l id hP => hP.imp_right fun hmem => List.mem_append_right _ hmem
  | opened k c hrx =>
    refine ⟨h.linked.take hrx ?_ (Or.inr (by simp)), fun i l id hcall => (h.connect i l id hcall).take, h.send, h.close⟩
    exact fun l id hP => hP.imp_right fun hmem => List.mem_append_right _ hmem

theorem Evolves.release (c : TcpConnection) : Evolves c { c with used := false } :=
  ⟨by simp, by simp, by simp, by simp, fun htags => htags⟩

theorem Evolves.advance (c : TcpConnection) (m : Nat) :
    Evolves c { c with seqNum := c.seqNum + UInt32.ofNat m } :=
  .same rfl rfl rfl rfl fun _ hx => hx

/-- The end of a handler. -/
theorem Consistent.handled (h : Consistent s) {handler : TcpHandler} {handlers : List TcpHandler}
    (hhandlers : s.handlers = handler :: handlers) (sent : Bool)
    (hopen : OpensUnnamed s (.resume sent)) :
    Consistent { s with net := s.net.setTcp (handler.resume s.net.tcp sent), handlers := handlers } := by
  have hclear : ∀ k, handler = .closed k ∨ (∃ id, handler = .opened k id ∧ sent = false) →
      Consistent { s with net := s.net.setTcp (s.net.tcp.set k {}), handlers := handlers } := by
    intro k hk
    refine ⟨(h.linked.evolve (Evolves.clear _)).settle ?_, fun i l id hcall => (h.connect i l id hcall).evolve (Evolves.clear _),
      h.send, h.close⟩
    intro l hl hP hQ
    exfalso
    rcases hP with hP | hmem
    · exact hQ (Or.inl hP)
    · rw [hhandlers, List.mem_cons] at hmem
      rcases hmem with heq | hmem
      · -- the handler was opening the entry, which is cleared
        rcases hk with rfl | ⟨id, rfl, -⟩
        · exact nomatch heq
        · obtain rfl := (TcpHandler.opened.inj heq).1
          simp [Net.setTcp, Tcp.set_connections] at hl
      · exact hQ (Or.inr hmem)
  cases handler with
  | closed k => exact hclear k (Or.inl rfl)
  | opened k id =>
    cases sent with
    | false => exact hclear k (Or.inr ⟨id, rfl, rfl⟩)
    | true =>
      have hsettled : Linked (Pending { s with handlers := handlers }) s.net := by
        refine h.linked.settle ?_
        intro l hl hP hQ
        rcases hP with hP | hmem
        · exact absurd (Or.inl hP) hQ
        · rw [hhandlers, List.mem_cons] at hmem
          rcases hmem with heq | hmem
          · obtain ⟨rfl, hid⟩ := TcpHandler.opened.inj heq
            simp only [OpensUnnamed, hhandlers] at hopen
            exact hopen hl hid
          · exact absurd (Or.inr hmem) hQ
      exact ⟨hsettled.evolve (Evolves.advance _ 1), fun i l id hcall => (h.connect i l id hcall).evolve (Evolves.advance _ 1),
        h.send, h.close⟩

/-- The end of a call, or its next wait. -/
theorem Consistent.resumed (h : Consistent s) {call : TcpCall} (hcall : s.call = some (i, call))
    (hhandlers : s.handlers = []) (sent : Bool) (hopen : OpensUnnamed s (.resume sent))
    (hstep : s.step (.resume sent) = some s') : Consistent s' := by
  have hpending : ∀ k id, Pending s k id → call = .connect k id := by
    rintro k id (⟨j, hj⟩ | hmem)
    · exact (Prod.mk.inj (Option.some.inj (hcall.symm.trans hj))).2
    · rw [hhandlers] at hmem
      cases hmem
  simp only [NetWait.step, hcall, hhandlers] at hstep
  cases call with
  | connect k id =>
    have hopening := h.connect i k id hcall
    cases sent with
    | true =>
      simp only [TcpCall.resume, if_true, socketEnd, Option.some.injEq] at hstep
      subst hstep
      simp only [OpensUnnamed, hhandlers, hcall] at hopen
      have hadvanced := h.linked.evolve (k := k) (Evolves.advance _ 1)
      refine Linked.consistent ?_
      refine hadvanced.connected (hopening.evolve (Evolves.advance _ 1)) ?_ ?_
      · intro l _ hP
        exact (TcpCall.connect.inj (hpending l _ hP)).1.symm
      · intro hused
        simp only [Net.setTcp, Tcp.set_connections, if_true] at hused ⊢
        exact hopen hused
    | false =>
      simp only [TcpCall.resume, socketEnd, Bool.false_eq_true, if_false,
        Option.some.injEq] at hstep
      subst hstep
      refine Linked.consistent ?_
      refine (h.linked.evolve (Evolves.release _)).settle ?_
      intro l hl hP
      obtain rfl := (TcpCall.connect.inj (hpending l _ hP)).1
      simp [Net.setTcp, Tcp.set_connections] at hl
  | send k id offset len =>
    have hname := h.send i k id offset len hcall
    have hdone : ∀ t, Linked (Pending s) (s.net.setTcp t) →
        Linked (Pending { net := s.net.setTcp t }) (s.net.setTcp t) :=
      fun t ht => ht.mono fun l id hP => absurd (hpending l id hP) TcpCall.noConfusion
    cases sent with
    | true =>
      have hadvanced := h.linked.evolve (k := k) (Evolves.advance _ (sendChunk offset len))
      simp only [TcpCall.resume, if_true] at hstep
      split at hstep
      · next rest tcp heq =>
          obtain ⟨hrest, rfl⟩ := Prod.mk.inj heq
          obtain rfl := Option.some.inj hstep
          split at hrest
          · obtain rfl := Option.some.inj hrest
            refine ⟨hadvanced.mono fun l id hP => absurd (hpending l id hP) TcpCall.noConfusion,
              by simp, ?_, by simp⟩
            intro j l id' offset' len' hcall'
            simp only [Option.some.injEq, Prod.mk.injEq, TcpCall.send.injEq] at hcall'
            obtain ⟨rfl, rfl, -⟩ := hcall'
            exact hname
          · cases hrest
      · next tcp heq =>
          obtain ⟨-, rfl⟩ := Prod.mk.inj heq
          obtain rfl := Option.some.inj hstep
          exact (hdone _ hadvanced).consistent
    | false =>
      simp only [TcpCall.resume, Bool.false_eq_true, if_false, socketEnd,
        Option.some.injEq] at hstep
      subst hstep
      exact (hdone _ h.linked).consistent
  | close k id =>
    have hadvanced := h.linked.evolve (k := k) (Evolves.advance _ 1)
    simp only [TcpCall.resume, socketEnd, Option.some.injEq] at hstep
    subst hstep
    refine Linked.consistent (Linked.setSocket (hadvanced.mono fun l id hP => absurd (hpending l id hP) TcpCall.noConfusion) ?_ rfl)
    intro l
    show (0 : Int) ≠ _
    omega

/-- Every step keeps the state consistent when a connect is for a socket that names no connection.
-/
theorem Consistent.step (h : Consistent s) {a : NetWaitAction} (hopen : OpensUnnamed s a)
    (hstep : s.step a = some s') :
    Consistent s' := by
  have hidle : ∀ a, (if s.call = none ∧ s.handlers = [] then some (NetWait.begin s.net a) else none) = some s' →
      Consistent s' := by
    intro a hbegin
    split at hbegin
    · next hidle =>
        obtain rfl := Option.some.inj hbegin
        exact Consistent.begin (h.linked.mono fun k id hP => absurd hP (not_pending_of_noneWaits hidle k id)) a
    · cases hbegin
  cases a with
  | deliver localIp packet seq =>
    obtain rfl := Option.some.inj hstep
    exact h.deliver localIp packet seq
  | resume sent =>
    cases hhandlers : s.handlers with
    | cons handler handlers =>
      simp only [NetWait.step, hhandlers, Option.some.injEq] at hstep
      subst hstep
      exact h.handled hhandlers sent hopen
    | nil =>
      cases hcall : s.call with
      | none => simp [NetWait.step, hhandlers, hcall] at hstep
      | some call => exact h.resumed hcall hhandlers sent hopen hstep
  | openTcp localPort => exact hidle _ hstep
  | connect handle dst dstPort seq => exact hidle _ hstep
  | listen handle => exact hidle _ hstep
  | accept handle => exact hidle _ hstep
  | send handle len => exact hidle _ hstep
  | recv handle bufferSize => exact hidle _ hstep
  | close handle => exact hidle _ hstep

end

/-! ## Runs -/

theorem Linked.changed {P : TcpSlot → Nat → Prop} {s : Net} (h : Linked P s) (hP : ∀ k id, ¬ P k id)
    (hi : (s.sockets i).used = true ∧ (s.sockets i).isTcp = true)
    (hacts : ActsOn s.tcp t (s.sockets i).tcpHandle)
    (hne : t.connections k ≠ s.tcp.connections k) :
    (s.sockets i).conn = some (s.tcp.connections k).id := by
  rcases hacts.acts with rfl | ⟨l, c, hl, -, rfl⟩
  · exact absurd rfl hne
  · obtain ⟨hhandle, hused⟩ := tcpGetConnection_eq hl
    have hkl : k = l := by
      by_contra hkl
      exact hne (by rw [Tcp.set_connections, if_neg hkl])
    subst hkl
    exact h.link i k ⟨hi.1, hi.2, hhandle.symm⟩ hused (hP _ _)

/-- A waiting call changes only its own entry. -/
theorem resume_connections {call : TcpCall} {l : TcpSlot}
    (hcall : (∃ id offset len, call = .send k id offset len) ∨
    ∃ id, call = .close k id) (sent : Bool) (h :
    (call.resume t sent).2.connections l ≠ t.connections l) : l = k := by
  by_contra hl
  apply h
  rcases hcall with ⟨id, offset, len, rfl⟩ | ⟨id, rfl⟩
  · cases sent
    · rfl
    · simp only [TcpCall.resume, if_true, Tcp.advance, Tcp.set_connections, if_neg hl]
  · simp only [TcpCall.resume, Tcp.advance, Tcp.set_connections, if_neg hl]

section

variable {s s' : NetWait}

/-- What a call does when its wait is over. -/
theorem resumed_tcp {call : TcpCall} {sent : Bool} (hcall : s.call = some (i, call))
    (hhandlers : s.handlers = []) (hstep : s.step (.resume sent) = some s') :
    s'.net.tcp = (call.resume s.net.tcp sent).2 := by
  simp only [NetWait.step, hcall, hhandlers] at hstep
  split at hstep
  · next rest tcp heq =>
      obtain rfl := Option.some.inj hstep
      rw [heq]
      rfl
  · next tcp heq =>
      obtain rfl := Option.some.inj hstep
      rw [heq]
      cases call with
      | connect k id => cases sent <;> rfl
      | send k id offset len => rfl
      | close k id => rfl

/-- A step on a socket changes its own connection only. -/
theorem Consistent.acts (h : Consistent s) {a : NetWaitAction} (hactor : actor s a = some i)
    (hstep : s.step a = some s') (hused : (s.net.tcp.connections k).used = true)
    (hne : s'.net.tcp.connections k ≠ s.net.tcp.connections k) :
    (s.net.sockets i).conn = some (s.net.tcp.connections k).id := by
  have hbegun : ∀ a, (if s.call = none ∧ s.handlers = [] then some (NetWait.begin s.net a) else none) = some s' →
      NoneWaits s ∧ s' = NetWait.begin s.net a := by
    intro a hbegin
    split at hbegin
    · next hidle => exact ⟨hidle, (Option.some.inj hbegin).symm⟩
    · exact nomatch hbegin
  cases a with
  | send handle len =>
    -- up to the first wait nothing changes
    obtain ⟨-, rfl⟩ := hbegun _ hstep
    refine absurd ?_ hne
    simp only [NetWait.begin, Model.socketTcpSendBegin]
    split
    · rfl
    · split <;> rfl
  | close handle =>
    obtain ⟨hidle, rfl⟩ := hbegun _ hstep
    simp only [actor] at hactor
    have hi := List.find?_some hactor
    simp only [Bool.and_eq_true] at hi
    simp only [NetWait.begin, Model.socketCloseBegin, hactor] at hne
    split at hne
    · next htcp =>
        have hacts := tcpCloseBegin_actsOn s.net.tcp (s.net.sockets i).tcpHandle
        generalize tcpCloseBegin s.net.tcp (s.net.sockets i).tcpHandle = r at hacts hne
        obtain ⟨r₁, r₂⟩ := r
        have hchanged : r₂.connections k ≠ s.net.tcp.connections k := by cases r₁ <;> exact hne
        exact h.linked.changed (not_pending_of_noneWaits hidle) ⟨hi.2, htcp.1⟩ hacts hchanged
    · exact absurd rfl hne
  | resume sent =>
    simp only [actor] at hactor
    have hlink : ∀ call, s.handlers = [] → s.call = some (i, call) →
        (∀ l id, call ≠ .connect l id) →
        (∀ l, (∃ id offset len, call = .send l id offset len) ∨ (∃ id, call = .close l id) → Names s.net i l ∧ k = l) →
        (s.net.sockets i).conn = some (s.net.tcp.connections k).id := by
      intro call hhandlers hcall hconnect hnames
      have hname : Names s.net i k := by
        cases call with
        | connect l id => exact absurd rfl (hconnect l id)
        | send l id offset len =>
          obtain ⟨hname, rfl⟩ := hnames l (Or.inl ⟨id, offset, len, rfl⟩)
          exact hname
        | close l id =>
          obtain ⟨hname, rfl⟩ := hnames l (Or.inr ⟨id, rfl⟩)
          exact hname
      refine h.linked.link i k hname hused ?_
      rintro (⟨j, hj⟩ | hmem)
      · exact hconnect _ _ (Prod.mk.inj (Option.some.inj (hcall.symm.trans hj))).2
      · rw [hhandlers] at hmem
        exact nomatch hmem
    split at hactor
    · next j l id offset len hhandlers hcall =>
        obtain rfl := Option.some.inj hactor
        rw [resumed_tcp hcall hhandlers hstep] at hne
        refine hlink _ hhandlers hcall (fun _ _ h => nomatch h) ?_
        rintro m (⟨id', offset', len', heq⟩ | ⟨id', heq⟩)
        · obtain rfl := (TcpCall.send.inj heq).1
          exact ⟨h.send _ _ _ _ _ hcall, resume_connections (Or.inl ⟨id, offset, len, rfl⟩) sent hne⟩
        · exact nomatch heq
    · next j l id hhandlers hcall =>
        obtain rfl := Option.some.inj hactor
        rw [resumed_tcp hcall hhandlers hstep] at hne
        refine hlink _ hhandlers hcall (fun _ _ h => nomatch h) ?_
        rintro m (⟨id', offset', len', heq⟩ | ⟨id', heq⟩)
        · exact nomatch heq
        · obtain rfl := (TcpCall.close.inj heq).1
          exact ⟨h.close _ _ _ hcall, resume_connections (Or.inr ⟨id, rfl⟩) sent hne⟩
    · exact nomatch hactor
  | openTcp localPort => exact nomatch hactor
  | connect handle dst dstPort seq => exact nomatch hactor
  | listen handle => exact nomatch hactor
  | accept handle => exact nomatch hactor
  | recv handle bufferSize => exact nomatch hactor
  | deliver localIp packet seq => exact nomatch hactor

/-- In a consistent state no socket names the connection of another one. -/
theorem Consistent.noConfusion (h : Consistent s) : NoConfusion s := by
  refine ⟨?_, fun a i s' k hactor hstep hused hne => h.acts hactor hstep hused hne, h.linked.own⟩
  intro hidle handle i size bytes hi hbytes x hx
  obtain ⟨-, hused, htcp⟩ := tcpSocket_eq hi
  simp only [socketTcpRecv, hi] at hbytes
  split at hbytes
  · simp at hbytes
  · obtain ⟨k, hk, hmem⟩ := (tcpRecv_spec s.net.tcp _ size).2 bytes hbytes (List.ne_nil_of_mem hx)
    obtain ⟨hhandle, hkused⟩ := tcpGetConnection_eq hk
    rw [h.linked.tags k x (hmem x hx)]
    exact h.linked.link i k ⟨hused, htcp, hhandle.symm⟩ hkused (not_pending_of_noneWaits hidle k _)

end

/-- At the start nothing is open. -/
theorem consistent_init : Consistent {} := by
  refine Linked.consistent ⟨?_, ?_, ?_, ?_, ?_, ?_, ?_⟩
  · intro k x hx
    cases hx
  · intro i k hname
    cases hname.1
  · intro k hused
    cases hused
  · intro k l hused
    cases hused
  · intro i c hused
    cases hused
  · intro k hused
    cases hused
  · intro i j c hused
    cases hused

/-- In every run in which connections are opened in entries that no other socket still names, no
socket gets at the connection of another one. -/
theorem noConfusion_of_run {actions : List NetWaitAction} {s : NetWait}
    (h : RunWhile NetWait.step OpensUnnamed {} actions s) :
    NoConfusion s := by
  have hconsistent : Consistent s := h.invariant (fun _ _ _ hopen hs hstep => hs.step hopen hstep) consistent_init
  exact hconsistent.noConfusion

def resetPacket : List UInt8 :=
  [ 0x00, 0x00, 0x00, 0x00, 0x00, 0x00, 0x00, 0x00, 0x00, 0x00, 0x00, 0x00, 0x00, 0x00, 0x45, 0x00, 0x00,
    0x28, 0x00, 0x00, 0x00, 0x00, 0x40, 0x06, 0x62, 0xC0, 0x0A, 0x00, 0x02, 0x02, 0x0A, 0x00, 0x02, 0x0F,
    0x00, 0x50, 0xC0, 0x00, 0x00, 0x00, 0x00, 0x00, 0x00, 0x00, 0x00, 0x65, 0x50, 0x14, 0x03, 0xE8, 0xD3,
    0x22, 0x00, 0x00]

def synAckPacket : List UInt8 :=
  [ 0x00, 0x00, 0x00, 0x00, 0x00, 0x00, 0x00, 0x00, 0x00, 0x00, 0x00, 0x00, 0x00, 0x00, 0x45, 0x00, 0x00,
    0x28, 0x00, 0x00, 0x00, 0x00, 0x40, 0x06, 0x62, 0xC0, 0x0A, 0x00, 0x02, 0x02, 0x0A, 0x00, 0x02, 0x0F,
    0x00, 0x50, 0xC0, 0x01, 0x00, 0x00, 0x01, 0xF4, 0x00, 0x00, 0x00, 0xC9, 0x50, 0x12, 0x03, 0xE8, 0xD0,
    0xCB, 0x00, 0x00]

def dataPacket : List UInt8 :=
  [ 0x00, 0x00, 0x00, 0x00, 0x00, 0x00, 0x00, 0x00, 0x00, 0x00, 0x00, 0x00, 0x00, 0x00, 0x45, 0x00, 0x00,
    0x29, 0x00, 0x00, 0x00, 0x00, 0x40, 0x06, 0x62, 0xBF, 0x0A, 0x00, 0x02, 0x02, 0x0A, 0x00, 0x02, 0x0F,
    0x00, 0x50, 0xC0, 0x01, 0x00, 0x00, 0x01, 0xF5, 0x00, 0x00, 0x00, 0xC9, 0x50, 0x18, 0x03, 0xE8, 0x58,
    0xC3, 0x00, 0x00, 0x78]

/-- A socket connects, its SYN is sent, the peer answers and sends one byte. -/
def connectedRun : List NetWaitAction :=
  [ .openTcp 0xC001, .connect 1 (some 0x0A000202) 80 200, .resume true, .deliver 0x0A00020F synAckPacket 0,
    .deliver 0x0A00020F dataPacket 0]

/-- A socket connects while a packet comes in during the wait for ARP, and receives what its peer
sent. -/
theorem noConfusion_connected :
    ∃ s, Run NetWait.step {} connectedRun s ∧ (socketTcpRecv s.net 1 10).1 = some [(0, 0x78)] ∧
      NoConfusion s := by
  have hrun : RunWhile NetWait.step OpensUnnamed {} connectedRun _ :=
    .cons trivial rfl (.cons trivial rfl (.cons ?_ rfl (.cons trivial rfl (.cons trivial rfl (.nil _)))))
  · exact ⟨_, .cons rfl (.cons rfl (.cons rfl (.cons rfl (.cons rfl (.nil _))))), by decide,
      noConfusion_of_run hrun⟩
  · -- the only open socket is the one that connects
    intro _
    refine ⟨rfl, fun j hj hname => hj ?_⟩
    have hopen : ∀ j : SocketSlot, ((socketTcpOpen {} 0xC001).2.sockets j).used = true → j = 0 := by
      decide
    exact hopen j hname.1

def resetRun : List NetWaitAction :=
  [ .openTcp 0, .connect 1 (some 0x0A000202) 80 100, .resume true, .deliver 0x0A00020F resetPacket 0,
    .openTcp 0, .connect 2 (some 0x0A000202) 80 200, .resume true, .deliver 0x0A00020F synAckPacket 0,
    .deliver 0x0A00020F dataPacket 0]

/-- A reset and a new peer during the wait give the socket a stranger's connection. -/
theorem not_noConfusion_resetRun :
    ∃ s, Run NetWait.step {} resetRun s ∧ (socketTcpRecv s.net 1 10).1 = some [(1, 0x78)] ∧
      (s.net.sockets 0).conn = some 0 ∧
      ¬ NoConfusion s := by
  have hrun : Run NetWait.step {} resetRun _ :=
    .cons rfl (.cons rfl (.cons rfl (.cons rfl (.cons rfl (.cons rfl (.cons rfl (.cons rfl (.cons rfl (.nil _)))))))))
  refine ⟨_, hrun, by decide, by decide, fun h => ?_⟩
  have hrecv := h.recv ⟨rfl, rfl⟩ 1 0 10 [(1, 0x78)] (by decide) (by decide) (1, 0x78) (by simp)
  exact absurd hrecv (by decide)

end Monios.Analysis
