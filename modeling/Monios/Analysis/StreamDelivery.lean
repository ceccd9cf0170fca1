import Mathlib.Data.UInt
import Monios.Analysis.ConnectionIdentity

/-!
# The byte stream of a connection

`ackedBytes` are the bytes that a segment carries at the sequence numbers that `ack_num` goes past;
the number of the FIN is left out. They come one after the other in `acked`, and what `tcp_recv`
copies out in `received`, for each connection by its identity.
-/

set_option autoImplicit false

namespace Monios.Analysis.Delivery

open Monios.Library Monios.Model

variable {c c' : TcpConnection} {p : TcpSegment} {k : TcpSlot} {first : UInt32} {t : Tcp}

/-- The table of connections with, by the identity of a connection, the first sequence number of the
peer's data, the bytes that were acknowledged and the bytes that were read. -/
structure Session where
  tcp : Tcp := {}
  first : Nat → UInt32 := fun _ => 0
  acked : Nat → List (Option UInt8) := fun _ => []
  received : Nat → List UInt8 := fun _ => []

def byteAt (p : TcpSegment) (x : UInt32) : Option UInt8 := p.data[(x - p.seq).toNat]?

def isFinAt (p : TcpSegment) (x : UInt32) : Bool :=
  p.has tcpFlagFin && x == p.seq + UInt32.ofNat p.data.length

/-- The bytes at the sequence numbers from `old` to `new`; `none` is a number at which the segment
carries no byte. -/
def ackedBytes (p : TcpSegment) (old new : UInt32) : List (Option UInt8) :=
  (List.range (new - old).toNat).filterMap fun k =>
    let x := old + UInt32.ofNat k
    if isFinAt p x then none else some (byteAt p x)

def ackedBy (p : TcpSegment) (c c' : TcpConnection) : List (Option UInt8) :=
  if c'.used = true ∧ c.state ≠ .synSent then ackedBytes p c.ackNum c'.ackNum else []

def firstBy (first : UInt32) (c c' : TcpConnection) : UInt32 :=
  if c.state ≠ .established ∧ c'.state = .established then c'.ackNum else first

def Session.step (s : Session) (a : TcpAction) : Session :=
  let tcp := tcpStep s.tcp a
  match a with
  | .recv handle bufferSize =>
    match tcpGetConnection s.tcp handle with
    | none => { s with tcp := tcp }
    | some k =>
      let id := (s.tcp.connections k).id
      let bytes := ((tcpRecv s.tcp handle bufferSize).1.getD []).map Prod.snd
      { s with tcp := tcp, received := Function.update s.received id (s.received id ++ bytes) }
  | .deliver localIp packet _ _ =>
    match (tcpParse localIp packet).bind fun p => (tcpLookup s.tcp p).map fun k => (p, k) with
    | none => { s with tcp := tcp }
    | some (p, k) =>
      let c := s.tcp.connections k
      let c' := tcp.connections k
      { s with
        tcp := tcp
        first := Function.update s.first c.id (firstBy (s.first c.id) c c')
        acked := Function.update s.acked c.id (s.acked c.id ++ ackedBy p c c') }
  | _ => { s with tcp := tcp }

def deliveryStep (s : Session) (a : TcpAction) : Option Session := some (s.step a)

def unread (c : TcpConnection) : List UInt8 := (c.rxBuffer.drop c.rxReadPos).map Prod.snd

def Numbered (c : TcpConnection) (first : UInt32) (n : Nat) : Prop :=
  match c.state with
  | .synSent | .synRcvd => n = 0
  | .established | .finWait1 | .finWait2 => c.ackNum = first + UInt32.ofNat n
  | .closeWait | .lastAck => c.ackNum = first + UInt32.ofNat n + 1
  | .closed | .timeWait => True

/-- Every connection has the acknowledged bytes up to `ack_num`, in order and once: they were read
or can be read. -/
structure Delivered (s : Session) : Prop where
  whole : ∀ k, (s.tcp.connections k).used = true →
    (s.received (s.tcp.connections k).id ++ unread (s.tcp.connections k)).map some = s.acked (s.tcp.connections k).id
  numbered : ∀ k, (s.tcp.connections k).used = true →
    Numbered (s.tcp.connections k) (s.first (s.tcp.connections k).id) (s.acked (s.tcp.connections k).id).length
  inOrder : ∀ id, (s.received id).map some <+: s.acked id

def FinAlone (s : Session) : TcpAction → Prop
  | .deliver localIp packet _ _ => ∀ p k, tcpParse localIp packet = some p →
    tcpLookup s.tcp p = some k →
      TakesFin (s.tcp.connections k) p → p.data = []
  | _ => True

@[simp]
theorem ackedBytes_self (p : TcpSegment) (x : UInt32) : ackedBytes p x x = [] := by
  simp [ackedBytes]

theorem filterMap_range_getElem {α : Type} (l : List α) :
    ((List.range l.length).filterMap fun k => some l[k]?) = l.map some := by
  apply List.ext_getElem
  · simp
  · intro k hk _
    simp [List.filterMap_eq_map'] at hk ⊢

theorem ackedBytes_data (hfin : p.has tcpFlagFin = false) (hlen : p.data.length < 2 ^ 32) :
    ackedBytes p p.seq (p.seq + UInt32.ofNat p.data.length) = p.data.map some := by
  have hn : (p.seq + UInt32.ofNat p.data.length - p.seq).toNat = p.data.length := by
    rw [add_sub_cancel_left, UInt32.toNat_ofNat_of_lt' hlen]
  unfold ackedBytes
  rw [hn, ← filterMap_range_getElem p.data]
  apply List.filterMap_congr
  intro k hk
  have hk : k < 2 ^ 32 := lt_trans (List.mem_range.mp hk) hlen
  simp [isFinAt, hfin, byteAt, UInt32.toNat_ofNat_of_lt' hk]

theorem ackedBytes_fin (hfin : p.has tcpFlagFin = true) (hdata : p.data = []) :
    ackedBytes p p.seq (p.seq + 1) = [] := by
  have hn : (p.seq + 1 - p.seq).toNat = 1 := by
    rw [add_sub_cancel_left]
    rfl
  unfold ackedBytes
  rw [hn]
  simp [isFinAt, hfin, hdata]

/-- An entry goes on after the bytes `more` were acknowledged and the bytes `got` were read, or is
given up. -/
structure Progress (c c' : TcpConnection) (first first' : UInt32) (more : List (Option UInt8)) (got : List UInt8) : Prop where
  used : c'.used = true → c.used = true
  ident : c'.used = true → c'.id = c.id
  readPos : c'.used = true → c.rxReadPos ≤ c.rxBuffer.length → c'.rxReadPos ≤ c'.rxBuffer.length
  whole : c'.used = true → c.rxReadPos ≤ c.rxBuffer.length → (got ++ unread c').map some = (unread c).map some ++ more
  numbered : ∀ n, c'.used = true → Numbered c first n → Numbered c' first' (n + more.length)
  givenUp : c.used = true → c'.used = false → got = [] ∧ more = []

theorem Progress.refl (c : TcpConnection) (first : UInt32) : Progress c c first first [] [] :=
  ⟨id, fun _ => rfl, fun _ h => h, by simp, fun _ _ h => h, fun _ _ => ⟨rfl, rfl⟩⟩

theorem Progress.clear (c : TcpConnection) (first first' : UInt32) :
    Progress c {} first first' [] [] :=
  ⟨by simp, by simp, by simp, by simp, by simp, fun _ _ => ⟨rfl, rfl⟩⟩

theorem Progress.same {first first' : UInt32} (hused : c'.used = c.used) (hid : c'.id = c.id)
    (hrx : c'.rxBuffer = c.rxBuffer) (hpos : c'.rxReadPos = c.rxReadPos)
    (hnumbered : ∀ n, Numbered c first n → Numbered c' first' n) :
    Progress c c' first first' [] [] := by
  refine ⟨fun h => hused ▸ h, fun _ => hid, fun _ h => ?_, fun _ _ => ?_, fun n _ => hnumbered n,
    fun _ _ => ⟨rfl, rfl⟩⟩
  · rw [hrx, hpos]
    exact h
  · simp [unread, hrx, hpos]

@[simp]
theorem ackedBy_sameAck (p : TcpSegment) (h : c'.ackNum = c.ackNum) : ackedBy p c c' = [] := by
  simp [ackedBy, h]

@[simp]
theorem ackedBy_synSent (p : TcpSegment) (h : c.state = .synSent) : ackedBy p c c' = [] := by
  simp [ackedBy, h]

@[simp]
theorem ackedBy_clear (p : TcpSegment) (c : TcpConnection) : ackedBy p c {} = [] := by
  simp [ackedBy]

theorem firstBy_of_ne (h : c'.state ≠ .established) : firstBy first c c' = first := by
  simp [firstBy, h]

theorem firstBy_of_established (h : c.state = .established) :
    firstBy first c c' = first := by
  simp [firstBy, h]

theorem Progress.data {c : TcpConnection} (first : UInt32) (hstate : c.state = .established)
    (hseq : p.seq = c.ackNum) : Progress c
      { c with rxBuffer := c.rxBuffer ++ p.data.map fun b => (c.id, b), rxReady := true,
               ackNum := p.seq + UInt32.ofNat p.data.length, remoteSeq := p.seq + UInt32.ofNat p.data.length }
      first first (p.data.map some) [] := by
  refine ⟨id, fun _ => rfl, fun _ h => ?_, fun _ h => ?_, fun n _ h => ?_, fun hused hgiven => ?_⟩
  · simp only [List.length_append]
    omega
  · simp [unread, List.drop_append_of_le_length h, Function.comp_def]
  · simp only [Numbered, hstate, List.length_map] at h ⊢
    rw [hseq, h, UInt32.ofNat_add, add_assoc]
  · exact absurd (hused.symm.trans hgiven) (by simp)

theorem progress_of_handled (h : Handled c p c') (hused : c.used = true) (first : UInt32)
    (halone : TakesFin c p → p.data = []) :
    Progress c c' first (firstBy first c c') (ackedBy p c c') [] := by
  cases h with
  | unchanged =>
    simp only [ackedBy_sameAck]
    refine Progress.same rfl rfl rfl rfl fun n hn => ?_
    unfold firstBy
    split
    · next hstate => exact absurd hstate.2 hstate.1
    · exact hn
  | cleared =>
    rw [ackedBy_clear]
    apply Progress.clear
  | answered hstate hack =>
    rw [ackedBy_synSent p hstate]
    refine Progress.same rfl rfl rfl rfl fun n hn => ?_
    have hzero : n = 0 := by simpa [Numbered, hstate] using hn
    simp [Numbered, firstBy, hstate, hzero]
  | opened hstate hack =>
    simp only [ackedBy_sameAck]
    refine Progress.same rfl rfl rfl rfl fun n hn => ?_
    have hzero : n = 0 := by simpa [Numbered, hstate] using hn
    simp [Numbered, firstBy, hstate, hzero]
  | finAcked hstate =>
    simp only [ackedBy_sameAck]
    rw [firstBy_of_ne (by simp)]
    refine Progress.same rfl rfl rfl rfl fun n hn => ?_
    simpa [Numbered, hstate] using hn
  | fin h =>
    have hdata := halone h
    obtain ⟨hstate, -, -, hseq, hfin⟩ := h
    have hacked : ackedBy p c { c with state := .closeWait, ackNum := p.seq + 1, remoteSeq := p.seq + 1 } = [] := by
      unfold ackedBy
      split
      · rw [← hseq]
        exact ackedBytes_fin hfin hdata
      · rfl
    rw [hacked, firstBy_of_ne (by simp)]
    refine Progress.same rfl rfl rfl rfl fun n hn => ?_
    have hack : c.ackNum = first + UInt32.ofNat n := by simpa [Numbered, hstate] using hn
    simp only [Numbered]
    rw [hseq, hack]
  | data hstate hseq hfin hlen =>
    rw [firstBy_of_established hstate]
    have hacked : ackedBytes p c.ackNum (p.seq + UInt32.ofNat p.data.length) = p.data.map some := by
      rw [← hseq]
      exact ackedBytes_data hfin (by omega)
    have hdata := Progress.data first hstate hseq
    simpa [ackedBy, hused, hstate, hacked] using hdata

structure Receives (s : Session) : Prop where
  delivered : Delivered s
  readPos : ∀ k, (s.tcp.connections k).used = true →
    (s.tcp.connections k).rxReadPos ≤ (s.tcp.connections k).rxBuffer.length
  lt : ∀ k, (s.tcp.connections k).used = true → (s.tcp.connections k).id < s.tcp.nextId
  distinct : ∀ k l, (s.tcp.connections k).used = true → (s.tcp.connections l).used = true →
    (s.tcp.connections k).id = (s.tcp.connections l).id → k = l
  fresh : ∀ id, s.tcp.nextId ≤ id → s.acked id = [] ∧ s.received id = []

theorem receives_init : Receives {} := by
  refine ⟨⟨?_, ?_, ?_⟩, ?_, ?_, ?_, ?_⟩
  · intro k hused
    cases hused
  · intro k hused
    cases hused
  · intro id
    exact List.prefix_rfl
  · intro k hused
    cases hused
  · intro k hused
    cases hused
  · intro k l hused
    cases hused
  · intro id _
    exact ⟨rfl, rfl⟩

section

variable {s : Session}

theorem Receives.congr (h : Receives s) (hconn : t.connections = s.tcp.connections)
    (hid : s.tcp.nextId ≤ t.nextId) :
    Receives { s with tcp := t } := by
  obtain ⟨⟨hwhole, hnumbered, hprefix⟩, hpos, hlt, hdistinct, hfresh⟩ := h
  rw [← hconn] at hwhole hnumbered hpos hlt hdistinct
  exact ⟨⟨hwhole, hnumbered, hprefix⟩, hpos, fun k hk => lt_of_lt_of_le (hlt k hk) hid, hdistinct,
    fun id h => hfresh id (le_trans hid h)⟩

theorem Receives.progress (h : Receives s) {c : TcpConnection} {more : List (Option UInt8)}
    {got : List UInt8} (hused : (s.tcp.connections k).used = true)
    (hc : Progress (s.tcp.connections k) c (s.first (s.tcp.connections k).id) first more got) :
    Receives
      { tcp := s.tcp.set k c
        first := Function.update s.first (s.tcp.connections k).id first
        acked := Function.update s.acked (s.tcp.connections k).id (s.acked (s.tcp.connections k).id ++ more)
        received := Function.update s.received (s.tcp.connections k).id (s.received (s.tcp.connections k).id ++ got) } := by
  generalize hid : (s.tcp.connections k).id = id at hc ⊢
  have hpos := h.readPos k hused
  have hwhole := h.delivered.whole k hused
  have hnumbered := h.delivered.numbered k hused
  rw [hid] at hwhole hnumbered
  -- the other entries are other connections
  have hother : ∀ l, l ≠ k → (s.tcp.connections l).used = true → (s.tcp.connections l).id ≠ id := by
    intro l hl hlused heq
    exact hl (h.distinct l k hlused hused (heq.trans hid.symm))
  have hident : c.used = true → c.id = id := fun hcu => (hc.ident hcu).trans hid
  have hgrown : c.used = true → (s.received id ++ got ++ unread c).map some =
      s.acked id ++ more := by
    intro hcu
    rw [List.append_assoc, List.map_append, hc.whole hcu hpos, ← List.append_assoc,
      ← List.map_append, hwhole]
  refine ⟨⟨?_, ?_, ?_⟩, ?_, ?_, ?_, ?_⟩
  · intro l hl
    by_cases hlk : l = k
    · subst hlk
      simp only [Tcp.set_connections, if_true] at hl ⊢
      simpa [hident hl] using hgrown hl
    · simp only [Tcp.set_connections, if_neg hlk] at hl ⊢
      simpa [Function.update_of_ne (hother l hlk hl)] using h.delivered.whole l hl
  · intro l hl
    by_cases hlk : l = k
    · subst hlk
      simp only [Tcp.set_connections, if_true] at hl ⊢
      simpa [hident hl] using hc.numbered _ hl hnumbered
    · simp only [Tcp.set_connections, if_neg hlk] at hl ⊢
      simpa [Function.update_of_ne (hother l hlk hl)] using h.delivered.numbered l hl
  · intro j
    by_cases hj : j = id
    · subst hj
      simp only [Function.update_self]
      cases hcu : c.used with
      | true =>
        have hread := List.prefix_append ((s.received j ++ got).map some) ((unread c).map some)
        rwa [← List.map_append, hgrown hcu] at hread
      | false =>
        obtain ⟨rfl, rfl⟩ := hc.givenUp hused hcu
        simpa using h.delivered.inOrder j
    · simpa [Function.update_of_ne hj] using h.delivered.inOrder j
  · intro l hl
    by_cases hlk : l = k
    · subst hlk
      simp only [Tcp.set_connections, if_true] at hl ⊢
      exact hc.readPos hl hpos
    · simp only [Tcp.set_connections, if_neg hlk] at hl ⊢
      exact h.readPos l hl
  · intro l hl
    by_cases hlk : l = k
    · subst hlk
      simp only [Tcp.set_connections, if_true] at hl ⊢
      rw [hident hl, ← hid]
      exact h.lt l hused
    · simp only [Tcp.set_connections, if_neg hlk] at hl ⊢
      exact h.lt l hl
  · intro l m hl hm heq
    by_cases hlk : l = k <;> by_cases hmk : m = k
    · rw [hlk, hmk]
    · simp only [Tcp.set_connections, if_pos hlk, if_neg hmk] at hl hm heq
      exact absurd (heq.symm.trans (hident hl)) (hother m hmk hm)
    · simp only [Tcp.set_connections, if_neg hlk, if_pos hmk] at hl hm heq
      exact absurd (heq.trans (hident hm)) (hother l hlk hl)
    · simp only [Tcp.set_connections, if_neg hlk, if_neg hmk] at hl hm heq
      exact h.distinct l m hl hm heq
  · intro j hj
    have hne : j ≠ id := by
      have := h.lt k hused
      rw [hid] at this
      exact (lt_of_lt_of_le this hj).ne'
    simpa [Function.update_of_ne hne] using h.fresh j hj

theorem Receives.quiet (h : Receives s) {c : TcpConnection}
    (hused : (s.tcp.connections k).used = true)
    (hc : Progress (s.tcp.connections k) c (s.first (s.tcp.connections k).id) (s.first (s.tcp.connections k).id) [] []) :
    Receives { s with tcp := s.tcp.set k c } := by
  simpa using h.progress hused hc

/-- What opening a connection does to the table: nothing to the entries, or a new connection in a
free one. -/
inductive Opens (t : Tcp) : Tcp → Prop
  | failed {t' : Tcp} (hconn : t'.connections = t.connections) (hid : t.nextId ≤ t'.nextId) : Opens t t'
  | taken {t' : Tcp} {k : TcpSlot} {c : TcpConnection} (hfree : (t.connections k).used = false)
      (hid : t'.nextId = t.nextId + 1) (hconn : t'.connections = Function.update t.connections k c)
      (hnew : c.used = true → c.id = t.nextId ∧ c.rxBuffer = [] ∧ c.rxReadPos = 0 ∧
        (c.state = .synSent ∨ c.state = .synRcvd)) : Opens t t'

theorem firstFree_unused (h : t.firstFree = some k) : (t.connections k).used = false := by
  simpa using List.find?_some h

theorem tcpConnectFrom_opens (t : Tcp) (remoteIp : UInt32) (remotePort localPort : UInt16)
    (seq : UInt32) (sent : Bool) :
    Opens t (tcpConnectFrom t remoteIp remotePort localPort seq sent).2 := by
  unfold tcpConnectFrom
  cases hk : t.firstFree with
  | none => exact .failed rfl le_rfl
  | some k =>
    cases sent with
    | false => exact .taken (firstFree_unused hk) rfl rfl (by simp)
    | true => exact .taken (firstFree_unused hk) rfl rfl fun _ => ⟨rfl, rfl, rfl, Or.inl rfl⟩

theorem tcpConnect_opens (t : Tcp) (remoteIp : UInt32) (remotePort localPort : UInt16)
    (seq : UInt32) (sent : Bool) :
    Opens t (tcpConnect t remoteIp remotePort localPort seq sent).2 := by
  unfold tcpConnect
  split
  · exact .failed rfl le_rfl
  · split
    · obtain ⟨port, hport⟩ := tcpAllocEphemeralPort_eq 1000 t
      simp only [hport]
      split
      · exact .failed rfl le_rfl
      · -- the port that the search stopped at is no part of an entry
        cases tcpConnectFrom_opens { t with nextEphemeralPort := port } remoteIp remotePort
            (tcpAllocEphemeralPort 1000 t).1 seq sent with
        | failed hconn hid => exact .failed hconn hid
        | taken hfree hid hconn hnew => exact .taken hfree hid hconn hnew
    · split
      · exact .failed rfl le_rfl
      · exact tcpConnectFrom_opens t remoteIp remotePort localPort seq sent

theorem tcpPassiveOpen_opens (t : Tcp) (p : TcpSegment) (seq : UInt32) (sent : Bool) :
    Opens t (tcpPassiveOpen t p seq sent) := by
  unfold tcpPassiveOpen
  cases hk : t.firstFree with
  | none => exact .failed rfl le_rfl
  | some k =>
    cases sent with
    | false => exact .taken (firstFree_unused hk) rfl rfl (by simp)
    | true => exact .taken (firstFree_unused hk) rfl rfl fun _ => ⟨rfl, rfl, rfl, Or.inr rfl⟩

theorem Receives.opens (h : Receives s) (ho : Opens s.tcp t) : Receives { s with tcp := t } := by
  cases ho with
  | failed hconn hid => exact h.congr hconn hid
  | @taken k c hfree hid hconn hnew =>
    have hget : ∀ l, t.connections l = if l = k then c else s.tcp.connections l := by
      intro l
      rw [hconn, Function.update_apply]
    -- nothing was acknowledged or read under the new identity
    obtain ⟨hacked, hreceived⟩ := h.fresh s.tcp.nextId le_rfl
    refine ⟨⟨?_, ?_, h.delivered.inOrder⟩, ?_, ?_, ?_, ?_⟩
    · intro l hl
      by_cases hlk : l = k
      · simp only [hget, if_pos hlk] at hl ⊢
        obtain ⟨hcid, hrx, -, -⟩ := hnew hl
        simp [hcid, hacked, hreceived, unread, hrx]
      · simp only [hget, if_neg hlk] at hl ⊢
        exact h.delivered.whole l hl
    · intro l hl
      by_cases hlk : l = k
      · simp only [hget, if_pos hlk] at hl ⊢
        obtain ⟨hcid, -, -, hstate | hstate⟩ := hnew hl <;> simp [Numbered, hstate, hcid, hacked]
      · simp only [hget, if_neg hlk] at hl ⊢
        exact h.delivered.numbered l hl
    · intro l hl
      by_cases hlk : l = k
      · simp only [hget, if_pos hlk] at hl ⊢
        obtain ⟨-, -, hpos, -⟩ := hnew hl
        simp [hpos]
      · simp only [hget, if_neg hlk] at hl ⊢
        exact h.readPos l hl
    · intro l hl
      by_cases hlk : l = k
      · simp only [hget, if_pos hlk] at hl ⊢
        rw [(hnew hl).1, hid]
        exact Nat.lt_succ_self _
      · simp only [hget, if_neg hlk] at hl ⊢
        rw [hid]
        exact Nat.lt_succ_of_lt (h.lt l hl)
    · intro l m hl hm heq
      by_cases hlk : l = k <;> by_cases hmk : m = k
      · rw [hlk, hmk]
      · simp only [hget, if_pos hlk, if_neg hmk] at hl hm heq
        have := h.lt m hm
        rw [← heq, (hnew hl).1] at this
        exact absurd this (lt_irrefl _)
      · simp only [hget, if_neg hlk, if_pos hmk] at hl hm heq
        have := h.lt l hl
        rw [heq, (hnew hm).1] at this
        exact absurd this (lt_irrefl _)
      · simp only [hget, if_neg hlk, if_neg hmk] at hl hm heq
        exact h.distinct l m hl hm heq
    · intro id hle
      have hle : s.tcp.nextId + 1 ≤ id := hid ▸ hle
      exact h.fresh id (le_trans (Nat.le_succ _) hle)

theorem tcpRecv_progress (t : Tcp) (handle : Int) (size : Nat)
    (hk : tcpGetConnection t handle = some k) (first : UInt32) :
    ∃ c, (tcpRecv t handle size).2 = t.set k c ∧
      Progress (t.connections k) c first first []
        (((tcpRecv t handle size).1.getD []).map Prod.snd) := by
  have hself : ∃ c, t = t.set k c ∧ Progress (t.connections k) c first first [] [] :=
    ⟨t.connections k, (Tcp.set_self t k).symm, Progress.refl _ _⟩
  have hused := (tcpGetConnection_eq hk).2
  simp only [tcpRecv, hk]
  split
  · exact hself
  · split
    · exact hself
    · next hlt =>
        split
        · next hall =>
            -- everything was read, and the buffer starts again
            refine ⟨_, rfl, id, fun _ => rfl, fun _ _ => le_rfl, fun _ _ => ?_, fun _ _ h => h,
              fun _ hgone => ?_⟩
            · have hsize : ((t.connections k).rxBuffer.drop (t.connections k).rxReadPos).length ≤
                  min ((t.connections k).rxBuffer.length - (t.connections k).rxReadPos) size := by
                rw [List.length_drop]
                omega
              simp [unread, List.take_of_length_le hsize]
            · exact absurd (hused.symm.trans hgone) (by simp)
        · next hpart =>
            refine ⟨_, rfl, id, fun _ => rfl, fun _ _ => ?_, fun _ _ => ?_, fun _ _ h => h,
              fun _ hgone => ?_⟩
            · simp only
              omega
            · simp only [unread, Option.getD_some]
              rw [← List.map_append, ← List.drop_drop, List.take_append_drop, List.append_nil]
            · exact absurd (hused.symm.trans hgone) (by simp)

theorem Receives.step (h : Receives s) {a : TcpAction} (halone : FinAlone s a) :
    Receives (s.step a) := by
  cases a with
  | listen port =>
    simp only [Session.step, tcpStep, tcpListenPort]
    split
    · exact h
    · split
      · exact h.congr rfl le_rfl
      · exact h
  | accept port =>
    simp only [Session.step, tcpStep, tcpAcceptReady]
    split
    · next k hk =>
        have hready := List.find?_some hk
        simp only [Bool.and_eq_true] at hready
        exact h.quiet hready.1.1.1.1 (Progress.same rfl rfl rfl rfl fun _ hn => hn)
    · exact h
  | connect remoteIp remotePort localPort seq sent => exact h.opens (tcpConnect_opens _ _ _ _ _ _)
  | close handle =>
    simp only [Session.step, tcpStep, tcpClose]
    split
    · exact h
    · next k hk =>
        have hused := (tcpGetConnection_eq hk).2
        split
        · next hstate =>
            apply h.quiet hused
            refine Progress.same rfl rfl rfl rfl fun n hn => ?_
            simpa [Numbered, hstate] using hn
        · next hstate =>
            apply h.quiet hused
            refine Progress.same rfl rfl rfl rfl fun n hn => ?_
            simpa [Numbered, hstate] using hn
        · exact h.quiet hused (Progress.clear _ _ _)
  | send handle data sentBytes =>
    simp only [Session.step, tcpStep, tcpSend]
    split
    · exact h
    · next k hk =>
        split
        · exact h
        · split
          · exact h
          · exact h.quiet (tcpGetConnection_eq hk).2 (Progress.same rfl rfl rfl rfl fun _ hn => hn)
  | recv handle bufferSize =>
    simp only [Session.step, tcpStep]
    split
    · next hk =>
        simpa [tcpRecv, hk] using h
    · next k hk =>
        obtain ⟨c, hc, hprogress⟩ := tcpRecv_progress s.tcp handle bufferSize hk (s.first (s.tcp.connections k).id)
        rw [hc]
        simpa using h.progress (tcpGetConnection_eq hk).2 hprogress
  | deliver localIp packet seq sent =>
    simp only [Session.step, tcpStep, tcpHandleIpv4]
    cases hparse : tcpParse localIp packet with
    | none => exact h
    | some p =>
      simp only [Option.bind_some, tcpHandleSegment]
      cases hlookup : tcpLookup s.tcp p with
      | none =>
        simp only [Option.map_none]
        split
        · exact h.opens (tcpPassiveOpen_opens _ _ _ _)
        · exact h
      | some k =>
        have hused : (s.tcp.connections k).used = true := by
          have hfound := List.find?_some hlookup
          simp only [Bool.and_eq_true] at hfound
          exact hfound.1.1.1
        have hprogress := progress_of_handled (tcpHandleState_handled (s.tcp.connections k) p) hused
          (s.first (s.tcp.connections k).id) (halone p k hparse hlookup)
        simpa [Tcp.set_connections] using h.progress hused hprogress

end

/-- In every run in which no FIN that is taken in ESTABLISHED comes with data, every connection gets
the bytes that are acknowledged. -/
theorem delivered_of_run {actions : List TcpAction} {s : Session}
    (h : RunWhile deliveryStep FinAlone {} actions s) :
    Delivered s := by
  have hreceives : Receives s := by
    refine h.invariant ?_ receives_init
    intro s a s' halone hs hstep
    exact Option.some.inj hstep ▸ hs.step halone
  exact hreceives.delivered

def dataRun : List TcpAction :=
  [ .connect 0x0A000202 80 49153 200 true, .deliver 0x0A00020F synAckPacket 0 true,
    .deliver 0x0A00020F dataPacket 0 true, .recv 1 10]

theorem delivered_dataRun : Delivered (dataRun.foldl Session.step {}) := by
  apply @delivered_of_run dataRun
  refine .cons ?_ rfl (.cons ?_ rfl (.cons ?_ rfl (.cons ?_ rfl (.nil _))))
  · exact trivial
  · intro p k hparse _ htakes
    have hdata : (tcpParse 0x0A00020F synAckPacket).map TcpSegment.data = some [] := by decide
    simpa [hparse] using hdata
  · intro p k hparse _ htakes
    have hflags : (tcpParse 0x0A00020F dataPacket).map (fun p => p.has tcpFlagFin) = some false := by decide
    simp [hparse, htakes.2.2.2.2] at hflags
  · exact trivial

def finDataPacket : List UInt8 :=
  [ 0x00, 0x00, 0x00, 0x00, 0x00, 0x00, 0x00, 0x00, 0x00, 0x00, 0x00, 0x00, 0x00, 0x00, 0x45, 0x00, 0x00,
    0x29, 0x00, 0x00, 0x00, 0x00, 0x40, 0x06, 0x62, 0xBF, 0x0A, 0x00, 0x02, 0x02, 0x0A, 0x00, 0x02, 0x0F,
    0x00, 0x50, 0xC0, 0x01, 0x00, 0x00, 0x01, 0xF5, 0x00, 0x00, 0x00, 0xC9, 0x50, 0x11, 0x03, 0xE8, 0x58,
    0xCA, 0x00, 0x00, 0x78]

def finDataRun : List TcpAction :=
  [ .connect 0x0A000202 80 49153 200 true, .deliver 0x0A00020F synAckPacket 0 true,
    .deliver 0x0A00020F finDataPacket 0 true]

theorem not_delivered_finDataRun :
    ∃ s, Run deliveryStep {} finDataRun s ∧ (s.tcp.connections 0).ackNum = 502 ∧
      s.acked 0 = [some 0x78] ∧
      (tcpRecv s.tcp 1 10).1 = some [] ∧ ¬ Delivered s := by
  have hack : ((finDataRun.foldl Session.step {}).tcp.connections 0).ackNum = 502 := by decide
  have hacked : (finDataRun.foldl Session.step {}).acked 0 = [some 0x78] := by decide
  have hrecv : (tcpRecv (finDataRun.foldl Session.step {}).tcp 1 10).1 = some [] := by decide
  have hused : ((finDataRun.foldl Session.step {}).tcp.connections 0).used = true := by decide
  have hid : ((finDataRun.foldl Session.step {}).tcp.connections 0).id = 0 := by decide
  have hread : (finDataRun.foldl Session.step {}).received 0 ++
      unread ((finDataRun.foldl Session.step {}).tcp.connections 0) = [] := by decide
  refine ⟨finDataRun.foldl Session.step {}, ?_, hack, hacked, hrecv, fun h => ?_⟩
  · exact .cons rfl (.cons rfl (.cons rfl (.nil _)))
  · have hwhole := h.whole 0 hused
    rw [hid, hread, hacked] at hwhole
    simp at hwhole

end Monios.Analysis.Delivery
