import Monios.Analysis.ConnectionIdentity

/-!
# Which connection a segment is for

A connection is found by its local port and the address and port of its peer. An active open takes a
local port that no entry has, and a passive open answers a segment that is for no entry, so that no
two entries in use have the same three (`demultiplexed_of_run`).
-/

set_option autoImplicit false

namespace Monios.Analysis.Demux

open Monios.Library Monios.Model

variable {t : Tcp} {p : TcpSegment} {k : TcpSlot}

def SameEnds (c d : TcpConnection) : Prop :=
  c.localPort = d.localPort ∧ c.remoteIp = d.remoteIp ∧ c.remotePort = d.remotePort

def IsFor (p : TcpSegment) (c : TcpConnection) : Prop :=
  c.used = true ∧ c.localPort = p.dstPort ∧ c.remotePort = p.srcPort ∧ c.remoteIp = p.srcIp

structure Demultiplexed (t : Tcp) : Prop where
  unique : ∀ i j, (t.connections i).used = true → (t.connections j).used = true →
    SameEnds (t.connections i) (t.connections j) → i = j
  one : ∀ p i j, IsFor p (t.connections i) → IsFor p (t.connections j) → i = j
  handles : ∀ p seq sent i j, (t.connections i).used = true → (t.connections j).used = true →
    (tcpHandleSegment t p seq sent).connections i ≠ t.connections i →
    (tcpHandleSegment t p seq sent).connections j ≠ t.connections j → i = j

def Unique (t : Tcp) : Prop :=
  ∀ i j, (t.connections i).used = true → (t.connections j).used = true →
    SameEnds (t.connections i) (t.connections j) → i = j

def KeepsEnds (c c' : TcpConnection) : Prop := c'.used = true → c.used = true ∧ SameEnds c' c

theorem KeepsEnds.clear (c : TcpConnection) : KeepsEnds c {} := fun h => nomatch h

theorem KeepsEnds.same {c c' : TcpConnection} (hused : c'.used = c.used)
    (hlocal : c'.localPort = c.localPort) (hip : c'.remoteIp = c.remoteIp)
    (hport : c'.remotePort = c.remotePort) : KeepsEnds c c' :=
  fun h => ⟨hused ▸ h, hlocal, hip, hport⟩

theorem Unique.set (h : Unique t) {c : TcpConnection}
    (hc : c.used = true → ∀ l, l ≠ k → (t.connections l).used = true →
      ¬ SameEnds c (t.connections l)) :
    Unique (t.set k c) := by
  intro i j hi hj hends
  simp only [Tcp.set_connections] at hi hj hends
  by_cases hik : i = k <;> by_cases hjk : j = k
  · rw [hik, hjk]
  · simp only [if_pos hik, if_neg hjk] at hi hj hends
    exact absurd hends (hc hi j hjk hj)
  · simp only [if_neg hik, if_pos hjk] at hi hj hends
    obtain ⟨hlocal, hip, hport⟩ := hends
    exact absurd ⟨hlocal.symm, hip.symm, hport.symm⟩ (hc hj i hik hi)
  · simp only [if_neg hik, if_neg hjk] at hi hj hends
    exact h i j hi hj hends

theorem Unique.keeps (h : Unique t) {c : TcpConnection} (hc : KeepsEnds (t.connections k) c) :
    Unique (t.set k c) := by
  apply h.set
  intro hused l hl hlused hends
  obtain ⟨hk, hlocal, hip, hport⟩ := hc hused
  obtain ⟨hlocal', hip', hport'⟩ := hends
  exact hl (h k l hk hlused ⟨hlocal.symm.trans hlocal', hip.symm.trans hip', hport.symm.trans hport'⟩).symm

theorem keepsEnds_of_handled {c c' : TcpConnection} (h : Handled c p c') : KeepsEnds c c' := by
  cases h with
  | cleared => exact KeepsEnds.clear c
  | _ => exact KeepsEnds.same rfl rfl rfl rfl

theorem tcpPortInUse_false {port : UInt16} (h : tcpPortInUse t port = false) (i : TcpSlot)
    (hi : (t.connections i).used = true) : (t.connections i).localPort ≠ port := by
  intro hport
  have hall := List.any_eq_false.mp h i (List.mem_finRange i)
  simp [hi, hport] at hall

theorem tcpAllocEphemeralPort_free (rounds : Nat) (t : Tcp) :
    (tcpAllocEphemeralPort rounds t).1 ≠ 0 →
      tcpPortInUse t (tcpAllocEphemeralPort rounds t).1 = false := by
  induction rounds generalizing t with
  | zero => exact fun h => absurd rfl h
  | succ rounds ih =>
    simp only [tcpAllocEphemeralPort]
    generalize (if t.nextEphemeralPort + 1 < 49152 then 49152 else t.nextEphemeralPort + 1) = next
    have hinUse : ∀ port, tcpPortInUse { t with nextEphemeralPort := next } port =
        tcpPortInUse t port := fun _ => rfl
    split
    · next hfree =>
        intro _
        rw [hinUse] at hfree
        simpa using hfree
    · intro h
      rw [← hinUse]
      exact ih { t with nextEphemeralPort := next } h

theorem Unique.tcpConnectFrom (h : Unique t) (remoteIp : UInt32) (remotePort : UInt16)
    {localPort : UInt16} (seq : UInt32) (sent : Bool) (hfree : tcpPortInUse t localPort = false) :
    Unique (Model.tcpConnectFrom t remoteIp remotePort localPort seq sent).2 := by
  unfold Model.tcpConnectFrom
  cases t.firstFree with
  | none => exact h
  | some k =>
    have hnext : Unique { t with nextId := t.nextId + 1 } := h
    cases sent with
    | false => exact hnext.set (by simp)
    | true =>
      apply hnext.set
      intro _ l _ hl hends
      exact tcpPortInUse_false hfree l hl hends.1.symm

theorem Unique.tcpConnect (h : Unique t) (remoteIp : UInt32) (remotePort localPort : UInt16)
    (seq : UInt32) (sent : Bool) :
    Unique (Model.tcpConnect t remoteIp remotePort localPort seq sent).2 := by
  unfold Model.tcpConnect
  split
  · exact h
  · split
    · obtain ⟨port, hport⟩ := tcpAllocEphemeralPort_eq 1000 t
      have hfree := tcpAllocEphemeralPort_free 1000 t
      have hnext : Unique { t with nextEphemeralPort := port } := h
      simp only [hport]
      split
      · exact hnext
      · next hne => exact hnext.tcpConnectFrom remoteIp remotePort seq sent (hfree hne)
    · split
      · exact h
      · next hfree => exact h.tcpConnectFrom remoteIp remotePort seq sent (by simpa using hfree)

theorem tcpLookup_none (h : tcpLookup t p = none) (i : TcpSlot) : ¬ IsFor p (t.connections i) := by
  rintro ⟨hused, hlocal, hport, hip⟩
  have hall := List.find?_eq_none.mp h i (List.mem_finRange i)
  simp [hused, hlocal, hport, hip] at hall

theorem tcpLookup_some (h : tcpLookup t p = some k) : IsFor p (t.connections k) := by
  have hfound := List.find?_some h
  simp only [Bool.and_eq_true, beq_iff_eq] at hfound
  exact ⟨hfound.1.1.1, hfound.1.1.2, hfound.1.2, hfound.2⟩

theorem Unique.tcpPassiveOpen (h : Unique t) (seq : UInt32) (sent : Bool)
    (hnone : tcpLookup t p = none) : Unique (Model.tcpPassiveOpen t p seq sent) := by
  unfold Model.tcpPassiveOpen
  cases t.firstFree with
  | none => exact h
  | some k =>
    have hnext : Unique { t with nextId := t.nextId + 1 } := h
    cases sent with
    | false => exact hnext.set (by simp)
    | true =>
      apply hnext.set
      intro _ l _ hl hends
      exact tcpLookup_none hnone l ⟨hl, hends.1.symm, hends.2.2.symm, hends.2.1.symm⟩

theorem Unique.tcpHandleIpv4 (h : Unique t) (localIp : UInt32) (packet : List UInt8) (seq : UInt32)
    (sent : Bool) :
    Unique (Model.tcpHandleIpv4 localIp t packet seq sent) := by
  unfold Model.tcpHandleIpv4
  split
  · next p hparse =>
      unfold tcpHandleSegment
      split
      · exact h.keeps (keepsEnds_of_handled (tcpHandleState_handled _ p))
      · next hnone =>
          split
          · exact h.tcpPassiveOpen seq sent hnone
          · exact h
  · exact h

theorem Unique.step (h : Unique t) (a : TcpAction) : Unique (tcpStep t a) := by
  cases a with
  | listen port =>
    simp only [tcpStep, tcpListenPort]
    split
    · exact h
    · split
      · exact h
      · exact h
  | accept port =>
    simp only [tcpStep, tcpAcceptReady]
    split
    · exact h.keeps (KeepsEnds.same rfl rfl rfl rfl)
    · exact h
  | connect remoteIp remotePort localPort seq sent =>
    exact h.tcpConnect remoteIp remotePort localPort seq sent
  | close handle =>
    simp only [tcpStep, tcpClose]
    split
    · exact h
    · split
      · exact h.keeps (KeepsEnds.same rfl rfl rfl rfl)
      · exact h.keeps (KeepsEnds.same rfl rfl rfl rfl)
      · exact h.keeps (KeepsEnds.clear _)
  | send handle data sentBytes =>
    simp only [tcpStep, tcpSend]
    split
    · exact h
    · split
      · exact h
      · split
        · exact h
        · exact h.keeps (KeepsEnds.same rfl rfl rfl rfl)
  | recv handle bufferSize =>
    simp only [tcpStep, tcpRecv]
    split
    · exact h
    · split
      · exact h
      · split
        · exact h
        · split
          · exact h.keeps (KeepsEnds.same rfl rfl rfl rfl)
          · exact h.keeps (KeepsEnds.same rfl rfl rfl rfl)
  | deliver localIp packet seq sent => exact h.tcpHandleIpv4 localIp packet seq sent

theorem tcpHandleSegment_changes {seq : UInt32} {sent : Bool} {i : TcpSlot}
    (hi : (t.connections i).used = true)
    (hne : (tcpHandleSegment t p seq sent).connections i ≠ t.connections i) :
    IsFor p (t.connections i) := by
  unfold tcpHandleSegment at hne
  split at hne
  · next k hk =>
      rw [Tcp.set_connections] at hne
      by_cases hik : i = k
      · subst hik
        exact tcpLookup_some hk
      · rw [if_neg hik] at hne
        exact absurd rfl hne
  · split at hne
    · -- a new connection takes a free entry
      unfold tcpPassiveOpen at hne
      cases hfree : t.firstFree with
      | none =>
        simp only [hfree] at hne
        exact absurd rfl hne
      | some k =>
        have hunused : (t.connections k).used = false := by simpa using List.find?_some hfree
        have hik : i ≠ k := by
          rintro rfl
          simp [hi] at hunused
        cases sent with
        | false => simp [hfree, Tcp.set_connections, hik] at hne
        | true => simp [hfree, Tcp.set_connections, hik] at hne
    · exact absurd rfl hne

theorem Unique.demultiplexed (h : Unique t) : Demultiplexed t := by
  have hone : ∀ p i j, IsFor p (t.connections i) → IsFor p (t.connections j) → i = j := by
    rintro p i j ⟨hi, hlocal, hport, hip⟩ ⟨hj, hlocal', hport', hip'⟩
    exact h i j hi hj ⟨hlocal.trans hlocal'.symm, hip.trans hip'.symm, hport.trans hport'.symm⟩
  refine ⟨h, hone, ?_⟩
  intro p seq sent i j hi hj hchanged hchanged'
  exact hone p i j (tcpHandleSegment_changes hi hchanged) (tcpHandleSegment_changes hj hchanged')

def tcpRunStep (t : Tcp) (a : TcpAction) : Option Tcp := some (tcpStep t a)

theorem demultiplexed_of_run {actions : List TcpAction} {t : Tcp}
    (h : Run tcpRunStep {} actions t) : Demultiplexed t := by
  have hunique : Unique t := by
    refine h.invariant (I := Unique) ?_ ?_
    · intro t a t' ht hstep
      exact Option.some.inj hstep ▸ ht.step a
    · intro i j hi
      cases hi
  exact hunique.demultiplexed

theorem demultiplexed_twice :
    Demultiplexed (([.connect 0x0A000202 80 0 100 true, .connect 0x0A000202 80 0 200 true] : List TcpAction).foldl tcpStep {}) :=
  @demultiplexed_of_run [.connect 0x0A000202 80 0 100 true, .connect 0x0A000202 80 0 200 true] _
    (.cons rfl (.cons rfl (.nil _)))

end Monios.Analysis.Demux
