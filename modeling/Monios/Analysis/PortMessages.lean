import Monios.Library.Ring
import Monios.Library.Run
import Monios.Model.Ipc

/-!
# Messages of a port

A port is a queue of messages, and a name leads to the port that was made for it (`ports_faithful`),
in runs where nothing is cut off: every name is shorter than the place for it, so is every message
that is queued, and whoever takes a message has a buffer that it fits into.
-/

set_option autoImplicit false

namespace Monios.Analysis.PortMessages

open Monios.Library Monios.Library.Ring Monios.Library.Bitmap
open Monios.Model (CString ascii)
open Monios.Model.Ipc

/-- The name that a port was made for, and the messages that senders and receivers of it have been
told about. -/
structure Log where
  name : List UInt8 := []
  sent : List (List UInt8) := []
  received : List (List UInt8) := []
  deriving DecidableEq

def record (s : State) (a : Action) (log : PortSlot → Log) (i : PortSlot) : Log :=
  if !((apply s a).ports i).used then {}
  else
    match a with
    | .create name => if (s.ports i).used then log i else { name := name.val }
    | .close _ => log i
    | .send portId text =>
      if ipcFindPort s portId = some i ∧ (ipcSendText s portId text).1 then
        { log i with sent := (log i).sent ++ (text.map Subtype.val).toList }
      else log i
    | .recv portId bufOk bufferSize =>
      if ipcFindPort s portId = some i then
        { log i with received := (log i).received ++ (ipcRecvText s portId bufOk bufferSize).2.1.toList }
      else log i

def step (r : State × (PortSlot → Log)) (a : Action) : Option (State × (PortSlot → Log)) :=
  some (apply r.1 a, record r.1 a r.2)

def start : State × (PortSlot → Log) := ({}, fun _ => {})

/-- A call cuts nothing off: a port that it makes has room for the name, the queue that it sends to
for the text, and the buffer that it offers for the first message there is. -/
def Fits (r : State × (PortSlot → Log)) : Action → Prop
  | .create name => firstClear r.1.pool ≠ none → name.val.length < ipcPortNameMax
  | .close _ => True
  | .send portId text =>
    ∀ i t, ipcFindPort r.1 portId = some i → text = some t → (r.1.ports i).count < ipcQueueDepth →
      t.val.length < ipcMessageMax
  | .recv portId bufOk bufferSize =>
    ∀ i, ipcFindPort r.1 portId = some i → bufOk = true → bufferSize ≠ 0 →
      (r.1.ports i).count ≠ 0 → ((r.1.ports i).queue (r.1.ports i).head).length < bufferSize

def queued (port : Port) : List (List UInt8) :=
  contents port.queue ipcQueueDepth port.head port.count

structure Faithful (s : State) (log : PortSlot → Log) : Prop where
  slots : ∀ i, s.pool i = (s.ports i).used
  ids : ∀ i, (s.ports i).used = true → (s.ports i).portId = i.val + 1
  valid : ∀ i, Valid ipcQueueDepth (s.ports i).head (s.ports i).tail (s.ports i).count
  queue : ∀ i, (log i).sent = (log i).received ++ queued (s.ports i)
  names : ∀ i, (s.ports i).used = true → (s.ports i).name = (log i).name ∧ (log i).name ≠ []
  unique : ∀ i j, (s.ports i).used = true → (s.ports j).used = true → (s.ports i).name = (s.ports j).name → i = j
  idle : ∀ i, (s.ports i).used = false → log i = {}

section

variable {s : State} {log : PortSlot → Log} {i : PortSlot}

theorem ipcFindPort_some {portId : Int} (h : ipcFindPort s portId = some i) :
    (s.ports i).used = true ∧ (s.ports i).portId = portId := by
  have := List.find?_some h
  simpa using this

theorem ipcPortFind_cases (name : List UInt8) :
    (∃ i, (s.ports i).used = true ∧ (s.ports i).name = name ∧
      ipcPortFind s name = (s.ports i).portId) ∨
      (∀ i, (s.ports i).used = true → (s.ports i).name ≠ name) ∧ ipcPortFind s name = -1 := by
  unfold ipcPortFind
  split
  · next i hi =>
    left
    have := List.find?_some hi
    simp only [Bool.and_eq_true, beq_iff_eq] at this
    exact ⟨i, this.1, this.2, rfl⟩
  · next hnone =>
    right
    refine ⟨fun i hused hname => ?_, rfl⟩
    have := List.find?_eq_none.mp hnone i (List.mem_finRange i)
    simp [hused, hname] at this

theorem ipcCopyText_of_lt {size : Nat} {text : List UInt8} (h : text.length < size) :
    ipcCopyText size text = text := by
  unfold ipcCopyText
  apply List.take_of_length_le
  omega

structure PortFaithful (i : PortSlot) (bit : Bool) (port : Port) (log : Log) : Prop where
  slot : bit = port.used
  id : port.used = true → port.portId = i.val + 1
  valid : Valid ipcQueueDepth port.head port.tail port.count
  queue : log.sent = log.received ++ queued port
  name : port.used = true → port.name = log.name ∧ log.name ≠ []
  idle : port.used = false → log = {}

theorem Faithful.port (h : Faithful s log) (i : PortSlot) :
    PortFaithful i (s.pool i) (s.ports i) (log i) :=
  ⟨h.slots i, h.ids i, h.valid i, h.queue i, h.names i, h.idle i⟩

theorem faithful_update (h : Faithful s log) {s' : State} {log' : PortSlot → Log}
    (hport : PortFaithful i (s'.pool i) (s'.ports i) (log' i))
    (hother : ∀ j, j ≠ i → s'.pool j = s.pool j ∧ s'.ports j = s.ports j ∧ log' j = log j)
    (hname : (s'.ports i).used = true → ∀ j, j ≠ i → (s.ports j).used = true →
      (s.ports j).name ≠ (s'.ports i).name) :
    Faithful s' log' := by
  have hall (j : PortSlot) : PortFaithful j (s'.pool j) (s'.ports j) (log' j) := by
    by_cases hj : j = i
    · rw [hj]
      exact hport
    · obtain ⟨hpool, hports, hlog⟩ := hother j hj
      rw [hpool, hports, hlog]
      exact h.port j
  refine ⟨fun j => (hall j).slot, fun j => (hall j).id, fun j => (hall j).valid,
    fun j => (hall j).queue,
    fun j => (hall j).name, fun j k hj hk hjk => ?_, fun j => (hall j).idle⟩
  by_cases hji : j = i
  · by_cases hki : k = i
    · rw [hji, hki]
    · rw [hji, (hother k hki).2.1] at hjk
      rw [hji] at hj
      rw [(hother k hki).2.1] at hk
      exact absurd hjk.symm (hname hj k hki hk)
  · rw [(hother j hji).2.1] at hj hjk
    by_cases hki : k = i
    · rw [hki] at hk hjk
      exact absurd hjk (hname hk j hji hj)
    · rw [(hother k hki).2.1] at hk hjk
      exact h.unique j k hj hk hjk

theorem faithful_set (h : Faithful s log) {port : Port} {log' : PortSlot → Log}
    (hused : (s.ports i).used = true)
    (hsame : port.used = true ∧ port.portId = (s.ports i).portId ∧ port.name = (s.ports i).name)
    (hvalid : Valid ipcQueueDepth port.head port.tail port.count)
    (hname : (log' i).name = (log i).name) (hqueue : (log' i).sent = (log' i).received ++
      queued port) (hother : ∀ j, j ≠ i → log' j = log j) :
    Faithful (s.set i port) log' := by
  obtain ⟨hport, hid, hportName⟩ := hsame
  have hslot : (s.set i port).ports i = port := Function.update_self _ _ _
  apply faithful_update h (i := i)
  · rw [hslot]
    refine ⟨(h.slots i).trans (hused.trans hport.symm), fun _ => ?_, hvalid, hqueue, fun _ => ?_,
      fun hfree => ?_⟩
    · rw [hid]
      exact h.ids i hused
    · rw [hportName, hname]
      exact h.names i hused
    · rw [hport] at hfree
      cases hfree
  · exact fun j hj => ⟨rfl, Function.update_of_ne hj _ _, hother j hj⟩
  · intro _ j hj hopen heq
    rw [hslot, hportName] at heq
    exact hj (h.unique j i hopen hused heq)

theorem record_same (h : Faithful s log) {a : Action} (hsame : apply s a = s)
    (hlog : ∀ i, (s.ports i).used = true → record s a log i = log i) :
    Faithful (apply s a) (record s a log) := by
  have hrecord : record s a log = log := by
    funext i
    cases hused : (s.ports i).used with
    | true => exact hlog i hused
    | false =>
      unfold record
      rw [hsame, hused, h.idle i hused]
      rfl
  rw [hsame, hrecord]
  exact h

theorem faithful_create (h : Faithful s log) (name : CString)
    (hfits : firstClear s.pool ≠ none → name.val.length < ipcPortNameMax) :
    Faithful (apply s (.create name)) (record s (.create name) log) := by
  have hrefused (hsame : apply s (.create name) = s) : Faithful (apply s (.create name)) (record s (.create name) log) := by
    apply record_same h hsame
    intro i hused
    simp [record, hsame, hused]
  by_cases hempty : name.val = []
  · apply hrefused
    simp only [apply, ipcPortCreate, if_pos hempty]
  by_cases hfound : ipcPortFind s name.val ≥ 0
  · apply hrefused
    simp only [apply, ipcPortCreate, if_neg hempty, if_pos hfound]
  cases hfree : firstClear s.pool with
  | none =>
    apply hrefused
    simp only [apply, ipcPortCreate, if_neg hempty, if_neg hfound, hfree]
  | some slot =>
    have hshort := ipcCopyText_of_lt (hfits (by simp [hfree]))
    have hclear : (s.ports slot).used = false := by rw [← h.slots, firstClear_some hfree]
    have hnew : ∀ i, (s.ports i).used = true → (s.ports i).name ≠ name.val := by
      cases @ipcPortFind_cases s name.val with
      | inl hfind =>
        obtain ⟨i, hused, -, hid⟩ := hfind
        rw [hid, h.ids i hused] at hfound
        omega
      | inr hnone => exact hnone.1
    have happly : apply s (.create name) =
        { s.set slot { used := true, portId := slot.val + 1, name := name.val } with
          pool := Function.update s.pool slot true } := by
      simp only [apply, ipcPortCreate, if_neg hempty, if_neg hfound, hfree, hshort]
    have hslot : (apply s (.create name)).ports slot = { used := true, portId := slot.val + 1, name := name.val } := by
      rw [happly]
      exact Function.update_self _ _ _
    have hother (j : PortSlot) (hj : j ≠ slot) : (apply s (.create name)).ports j = s.ports j := by
      rw [happly]
      exact Function.update_of_ne hj _ _
    have hlogSlot : record s (.create name) log slot = { name := name.val } := by
      simp [record, hslot, hclear]
    have hlog (j : PortSlot) (hj : j ≠ slot) : record s (.create name) log j = log j := by
      cases hused : (s.ports j).used with
      | true => simp [record, hother j hj, hused]
      | false => simp [record, hother j hj, hused, h.idle j hused]
    apply faithful_update h (i := slot)
    · have hbit : (apply s (.create name)).pool slot = true := by
        rw [happly]
        exact Function.update_self _ _ _
      rw [hslot, hlogSlot, hbit]
      exact ⟨rfl, fun _ => rfl, valid_empty (by decide), rfl, fun _ => ⟨rfl, hempty⟩,
        fun hidle => absurd hidle.symm Bool.false_ne_true⟩
    · refine fun j hj => ⟨?_, hother j hj, hlog j hj⟩
      rw [happly]
      exact Function.update_of_ne hj _ _
    · intro _ j _ hopen
      rw [hslot]
      exact hnew j hopen

theorem faithful_close (h : Faithful s log) (portId : Int) :
    Faithful (apply s (.close portId)) (record s (.close portId) log) := by
  have hrefused (hsame : apply s (.close portId) = s) : Faithful (apply s (.close portId)) (record s (.close portId) log) := by
    apply record_same h hsame
    intro i hused
    simp [record, hsame, hused]
  cases hfind : ipcFindPort s portId with
  | none =>
    apply hrefused
    simp only [apply, ipcPortClose, hfind]
  | some i =>
    obtain ⟨hused, hid⟩ := ipcFindPort_some hfind
    rw [h.ids i hused] at hid
    have hpos : ¬ portId ≤ 0 := by omega
    have happly : apply s (.close portId) =
        { s.set i {} with pool := fun j => if (j.val : Int) = portId - 1 then false else s.pool j } := by
      simp only [apply, ipcPortClose, hfind, if_neg hpos]
    have hslot : (apply s (.close portId)).ports i = {} := by
      rw [happly]
      exact Function.update_self _ _ _
    have hother (j : PortSlot) (hj : j ≠ i) : (apply s (.close portId)).ports j = s.ports j := by
      rw [happly]
      exact Function.update_of_ne hj _ _
    have hlogSlot : record s (.close portId) log i = {} := by simp [record, hslot]
    have hlog (j : PortSlot) (hj : j ≠ i) : record s (.close portId) log j = log j := by
      cases hopen : (s.ports j).used with
      | true => simp [record, hother j hj, hopen]
      | false => simp [record, hother j hj, hopen, h.idle j hopen]
    apply faithful_update h (i := i)
    · have hbit : (apply s (.close portId)).pool i = false := by
        rw [happly]
        exact if_pos (by omega)
      rw [hslot, hlogSlot, hbit]
      have hidle {P : Prop} (hused : false = true) : P := absurd hused Bool.false_ne_true
      exact ⟨rfl, hidle, valid_empty (by decide), rfl, hidle, fun _ => rfl⟩
    · refine fun j hj => ⟨?_, hother j hj, hlog j hj⟩
      have hval : j.val ≠ i.val := fun heq => hj (Fin.ext heq)
      rw [happly]
      exact if_neg (by omega)
    · rw [hslot]
      exact fun hused => absurd hused Bool.false_ne_true

theorem queued_put {port : Port} (hvalid : Valid ipcQueueDepth port.head port.tail port.count)
    (hroom : port.count < ipcQueueDepth) (text : List UInt8) :
    contents (Function.update port.queue port.tail text) ipcQueueDepth port.head (port.count + 1) =
      queued port ++ [text] := by
  refine contents_put hvalid [text] hroom hvalid.tail_lt ?_ ?_
  · intro k hk
    obtain rfl : k = 0 := Nat.lt_one_iff.mp hk
    exact Function.update_self _ _ _
  · intro p _ hp
    apply Function.update_of_ne
    rw [List.length_singleton] at hp
    omega

theorem faithful_send (h : Faithful s log) (portId : Int) (text : Option CString)
    (hfits : ∀ i t, ipcFindPort s portId = some i → text = some t →
      (s.ports i).count < ipcQueueDepth →
      t.val.length < ipcMessageMax) : Faithful (apply s (.send portId text)) (record s
      (.send portId text) log) := by
  have hrefused (hsend : ipcSendText s portId text = (false, s)) :
      Faithful (apply s (.send portId text)) (record s (.send portId text) log) := by
    apply record_same h
    · simp only [apply, hsend]
    · intro i hused
      simp [record, apply, hsend, hused]
  cases hfind : ipcFindPort s portId with
  | none =>
    apply hrefused
    simp only [ipcSendText, hfind]
  | some i =>
    cases text with
    | none =>
      apply hrefused
      simp only [ipcSendText, hfind]
    | some t =>
      by_cases hfull : (s.ports i).count ≥ ipcQueueDepth
      · apply hrefused
        simp only [ipcSendText, hfind, if_pos hfull]
      · obtain ⟨hused, -⟩ := ipcFindPort_some hfind
        have hroom := Nat.not_le.mp hfull
        have hshort := ipcCopyText_of_lt (hfits i t hfind rfl hroom)
        have hsend : ipcSendText s portId (some t) = (true, s.set i { s.ports i with
            queue := Function.update (s.ports i).queue (s.ports i).tail t.val
            tail := ((s.ports i).tail + 1) % ipcQueueDepth
            count := (s.ports i).count + 1 }) := by
          simp only [ipcSendText, hfind, if_neg hfull, hshort]
        have happly : apply s (.send portId (some t)) = (ipcSendText s portId (some t)).2 := rfl
        have hput := queued_put (h.valid i) hroom t.val
        rw [happly, hsend]
        apply faithful_set h hused
        · exact ⟨hused, rfl, rfl⟩
        · exact (h.valid i).put hroom
        · simp [record, happly, hsend, State.set, hfind, hused]
        · have hqueue := h.queue i
          simp only [record, happly, hsend, State.set, Function.update_self, hused, hfind]
          simp only [Bool.not_true, Bool.false_eq_true, if_false, and_self, if_true,
            Option.map_some, Option.toList_some, hqueue,
            List.append_assoc]
          congr 1
          exact hput.symm
        · intro j hj
          have hne : ¬ i = j := Ne.symm hj
          cases hopen : (s.ports j).used with
          | true => simp [record, happly, hsend, State.set, hj, hfind, hne, hopen]
          | false => simp [record, happly, hsend, State.set, hj, hopen, h.idle j hopen]

theorem faithful_recv (h : Faithful s log) (portId : Int) (bufOk : Bool) (bufferSize : Nat)
    (hfits : ∀ i, ipcFindPort s portId = some i → bufOk = true → bufferSize ≠ 0 →
      (s.ports i).count ≠ 0 →
      ((s.ports i).queue (s.ports i).head).length < bufferSize) :
    Faithful (apply s (.recv portId bufOk bufferSize))
    (record s (.recv portId bufOk bufferSize) log) := by
  have hrefused {result : Int} (hrecv : ipcRecvText s portId bufOk bufferSize = (result, none, s)) :
      Faithful (apply s (.recv portId bufOk bufferSize)) (record s (.recv portId bufOk bufferSize) log) := by
    apply record_same h
    · simp only [apply, hrecv]
    · intro i hused
      simp [record, apply, hrecv, hused]
  cases hfind : ipcFindPort s portId with
  | none =>
    apply @hrefused (-1)
    simp only [ipcRecvText, hfind]
  | some i =>
    by_cases hbuffer : (!bufOk || bufferSize == 0) = true
    · apply @hrefused (-1)
      simp only [ipcRecvText, hfind, if_pos hbuffer]
    by_cases hempty : (s.ports i).count = 0
    · apply @hrefused 0
      simp only [ipcRecvText, hfind, if_neg hbuffer, if_pos hempty]
    obtain ⟨hused, -⟩ := ipcFindPort_some hfind
    have hsplit := hbuffer
    simp only [Bool.or_eq_true, Bool.not_eq_true', beq_iff_eq, not_or, Bool.not_eq_false] at hsplit
    have hshort := ipcCopyText_of_lt (hfits i hfind hsplit.1 hsplit.2 hempty)
    have hrecv : ipcRecvText s portId bufOk bufferSize = ((((s.ports i).queue (s.ports i).head).length : Int),
        some ((s.ports i).queue (s.ports i).head),
        s.set i { s.ports i with head := ((s.ports i).head + 1) % ipcQueueDepth, count := (s.ports i).count - 1 }) := by
      simp only [ipcRecvText, hfind, if_neg hbuffer, if_neg hempty, hshort]
    have happly : apply s (.recv portId bufOk bufferSize) =
        (ipcRecvText s portId bufOk bufferSize).2.2 := rfl
    have hone := Nat.one_le_iff_ne_zero.mpr hempty
    have htake := @contents_take _ (s.ports i).queue ipcQueueDepth (s.ports i).head (s.ports i).count 1 hone
      (h.valid i).head_lt
    rw [happly, hrecv]
    apply faithful_set h hused
    · exact ⟨hused, rfl, rfl⟩
    · exact (h.valid i).take hone
    · simp [record, happly, hrecv, State.set, hfind, hused]
    · have hqueue := h.queue i
      unfold queued at hqueue
      rw [htake] at hqueue
      simp only [record, happly, hrecv, State.set, Function.update_self, hused, hfind]
      simp only [Bool.not_true, Bool.false_eq_true, if_false, if_true, Option.toList_some, hqueue,
        List.append_assoc]
      rfl
    · intro j hj
      have hne : ¬ i = j := Ne.symm hj
      cases hopen : (s.ports j).used with
      | true => simp [record, happly, hrecv, State.set, hj, hfind, hne, hopen]
      | false => simp [record, happly, hrecv, State.set, hj, hopen, h.idle j hopen]

theorem faithful_step {r r' : State × (PortSlot → Log)} {a : Action} (hfits : Fits r a)
    (h : Faithful r.1 r.2) (hstep : step r a = some r') : Faithful r'.1 r'.2 := by
  cases hstep
  cases a with
  | create name => exact faithful_create h name hfits
  | close portId => exact faithful_close h portId
  | send portId text => exact faithful_send h portId text hfits
  | recv portId bufOk bufferSize => exact faithful_recv h portId bufOk bufferSize hfits

theorem ipcPortCreate_again (h : Faithful s log) (hused : (s.ports i).used = true) (name : CString)
    (hname : name.val = (log i).name) : ipcPortCreate s name = ((i.val : Int) + 1, s) := by
  obtain ⟨hstored, hne⟩ := h.names i hused
  have hfind : ipcPortFind s name.val = i.val + 1 := by
    cases @ipcPortFind_cases s name.val with
    | inl hfind =>
      obtain ⟨j, hj, hjname, hid⟩ := hfind
      rw [hname, ← hstored] at hjname
      rw [hid, h.unique j i hj hused hjname, h.ids i hused]
    | inr hnone => exact absurd (hstored.trans hname.symm) (hnone.1 i hused)
  rw [← hname] at hne
  unfold ipcPortCreate
  rw [if_neg hne, hfind, if_pos (by omega)]

end

theorem faithful_start : Faithful start.1 start.2 :=
  ⟨fun _ => rfl, fun _ h => absurd h Bool.false_ne_true, fun _ => valid_empty (by decide), fun _ => rfl,
    fun _ h => absurd h Bool.false_ne_true, fun _ _ h => absurd h Bool.false_ne_true, fun _ _ => rfl⟩

/-- When no call cuts anything off, what has been received from a port is the beginning of what has
been sent to it, and making a port under the name of one that there is leads to that one. -/
theorem ports_faithful {calls : List Action} {r : State × (PortSlot → Log)}
    (h : RunWhile step Fits start calls r) (i : PortSlot) : (r.2 i).received <+: (r.2 i).sent ∧
      ((r.1.ports i).used = true → ∀ name : CString, name.val = (r.2 i).name →
        ipcPortCreate r.1 name = ((i.val : Int) + 1, r.1)) := by
  have hfaithful : Faithful r.1 r.2 := by
    apply h.invariant _ faithful_start
    intro _ _ _ hfits hr hstep
    exact faithful_step hfits hr hstep
  refine ⟨⟨_, (hfaithful.queue i).symm⟩, fun hused name hname => ?_⟩
  exact ipcPortCreate_again hfaithful hused name hname

theorem ports_faithful_sample :
    ∃ r, RunWhile step Fits start [.create ⟨ascii "log", by decide⟩, .send 1 (some ⟨ascii "hello", by decide⟩),
        .recv 1 true 128] r ∧ (r.2 0).received <+: (r.2 0).sent ∧ (r.2 0).received = [ascii "hello"] := by
  have hrun : ∃ r, RunWhile step Fits start [.create ⟨ascii "log", by decide⟩, .send 1 (some ⟨ascii "hello", by decide⟩),
      .recv 1 true 128] r ∧ (r.2 0).received = [ascii "hello"] := by
    refine ⟨_, .cons ?_ rfl (.cons ?_ rfl (.cons ?_ rfl (.nil _))), by decide⟩
    · exact fun _ => by decide
    · rintro i t - ht -
      cases ht
      decide
    · rintro i hi - - -
      have h0 : i = 0 := by
        have hfind : ipcFindPort (apply (apply {} (.create ⟨ascii "log", by decide⟩))
          (.send 1 (some ⟨ascii "hello", by decide⟩))) 1 = some 0 := by decide
        exact (Option.some.inj (hfind.symm.trans hi)).symm
      rw [h0]
      decide
  obtain ⟨r, hr, hreceived⟩ := hrun
  exact ⟨r, hr, (ports_faithful hr 0).1, hreceived⟩

/-- A name of 16 characters makes a port each time, a message of 128 characters is received without
its last one, and so is one that is received into a buffer of its own length. -/
theorem not_ports_faithful :
    (∃ name : CString, (ipcPortCreate {} name).1 = 1 ∧
      (ipcPortCreate (ipcPortCreate {} name).2 name).1 = 2) ∧
    (∃ name text : CString, (ipcSendText (ipcPortCreate {} name).2 1 (some text)).1 = true ∧
      (ipcRecvText (ipcSendText (ipcPortCreate {} name).2 1 (some text)).2 1 true 4096).2.1 ≠ some text.val) ∧
    (∃ name text : CString, (ipcSendText (ipcPortCreate {} name).2 1 (some text)).1 = true ∧
      (ipcRecvText (ipcSendText (ipcPortCreate {} name).2 1 (some text)).2 1 true text.val.length).2.1 ≠ some text.val) :=
  ⟨⟨⟨ascii "sixteen-letters!", by decide⟩, by decide, by decide⟩,
    ⟨⟨ascii "log", by decide⟩, ⟨List.replicate 128 0x61, by decide⟩, by decide, by decide⟩,
    ⟨⟨ascii "log", by decide⟩, ⟨ascii "hello", by decide⟩, by decide, by decide⟩⟩

/-! ## Messages to all ports -/

/-- A call, or one of `ipc_broadcast_text`. -/
inductive Call
  | one (a : Action)
  | broadcast (text : Option CString)

def call (s : State) : Call → State
  | .one a => apply s a
  | .broadcast text => (ipcBroadcastText s text).2

abbrev HasRoom (port : Port) : Prop := port.used = true ∧ port.count < ipcQueueDepth

def putText (text : CString) (port : Port) : Port :=
  { port with
    queue := Function.update port.queue port.tail (ipcCopyText ipcMessageMax text.val)
    tail := (port.tail + 1) % ipcQueueDepth
    count := port.count + 1 }

/-- What a port becomes that the text is sent to. -/
def sendTo (text : CString) (port : Port) : Port := if HasRoom port then putText text port else port

/-- What the ports keep even where texts are cut: a port has the number of its slot, and its queue
is a ring. -/
structure Numbered (s : State) : Prop where
  ids : ∀ i, (s.ports i).used = true → (s.ports i).portId = i.val + 1
  valid : ∀ i, Valid ipcQueueDepth (s.ports i).head (s.ports i).tail (s.ports i).count

section

variable {s : State} {i : PortSlot}

theorem numbered_set (h : Numbered s) {port : Port} {pool : PortSlot → Bool}
    (hid : port.used = true → port.portId = i.val + 1)
    (hvalid : Valid ipcQueueDepth port.head port.tail port.count) :
    Numbered { s.set i port with pool := pool } := by
  refine ⟨fun j => ?_, fun j => ?_⟩ <;> by_cases hj : j = i
  · subst hj
    simpa only [State.set, Function.update_self] using hid
  · simpa only [State.set, Function.update_of_ne hj] using h.ids j
  · subst hj
    simpa only [State.set, Function.update_self] using hvalid
  · simpa only [State.set, Function.update_of_ne hj] using h.valid j

theorem set_self (s : State) (i : PortSlot) : s.set i (s.ports i) = s :=
  congrArg (State.mk · s.pool) (Function.update_eq_self i s.ports)

theorem numbered_sendTo (h : Numbered s) (text : CString) :
    Numbered (s.set i (sendTo text (s.ports i))) := by
  unfold sendTo
  split
  · next hroom => exact numbered_set h (h.ids i) ((h.valid i).put hroom.2)
  · exact numbered_set h (h.ids i) (h.valid i)

theorem ipcSendText_found {portId : Int} (h : ipcFindPort s portId = some i) (text : CString) :
    ipcSendText s portId (some text) =
      (decide (HasRoom (s.ports i)), s.set i (sendTo text (s.ports i))) := by
  obtain ⟨hused, -⟩ := ipcFindPort_some h
  unfold ipcSendText sendTo
  rw [h]
  by_cases hfull : (s.ports i).count ≥ ipcQueueDepth
  · have hroom : ¬ HasRoom (s.ports i) := fun hroom => Nat.not_lt.mpr hfull hroom.2
    rw [if_neg hroom, decide_eq_false hroom, set_self]
    exact if_pos hfull
  · have hroom : HasRoom (s.ports i) := ⟨hused, Nat.not_le.mp hfull⟩
    rw [if_pos hroom, decide_eq_true hroom]
    exact if_neg hfull

theorem numbered_apply (h : Numbered s) (a : Action) : Numbered (apply s a) := by
  cases a with
  | create name =>
    unfold apply ipcPortCreate
    dsimp only
    split
    · exact h
    · split
      · exact h
      · split
        · exact h
        · exact numbered_set h (fun _ => rfl) (valid_empty (by decide))
  | close portId =>
    unfold apply ipcPortClose
    dsimp only
    split
    · exact h
    · split
      · exact h
      · exact numbered_set h (fun hused => absurd hused Bool.false_ne_true)
          (valid_empty (by decide))
  | send portId text =>
    unfold apply
    cases hfind : ipcFindPort s portId with
    | none => simpa only [ipcSendText, hfind] using h
    | some i =>
      cases text with
      | none => simpa only [ipcSendText, hfind] using h
      | some text =>
        simpa only [ipcSendText_found hfind] using numbered_sendTo h text
  | recv portId bufOk bufferSize =>
    unfold apply ipcRecvText
    dsimp only
    split
    · exact h
    · split
      · exact h
      · split
        · exact h
        · next i _ _ hcount => exact numbered_set h (h.ids i) ((h.valid i).take (Nat.one_le_iff_ne_zero.mpr hcount))

theorem ipcBroadcastTo_eq (h : Numbered s) (text : CString) (n : Nat) (i : PortSlot) :
    ipcBroadcastTo text (n, s) i =
    (n + (if HasRoom (s.ports i) then 1 else 0), s.set i (sendTo text (s.ports i))) := by
  unfold ipcBroadcastTo
  by_cases hused : (s.ports i).used = true
  · -- the number of a port in use leads back to its own slot
    have hfind : ipcFindPort s (s.ports i).portId = some i := by
      obtain ⟨j, hj⟩ : ∃ j, ipcFindPort s (s.ports i).portId = some j :=
        Option.isSome_iff_exists.mp (List.find?_isSome.mpr ⟨i, List.mem_finRange i, by simp [hused]⟩)
      obtain ⟨hjused, hid⟩ := ipcFindPort_some hj
      rw [h.ids j hjused, h.ids i hused] at hid
      rw [hj, Fin.ext (by omega : j.val = i.val)]
    rw [if_pos hused, ipcSendText_found hfind]
    by_cases hroom : HasRoom (s.ports i)
    · rw [if_pos hroom, decide_eq_true hroom]
      rfl
    · rw [if_neg hroom, decide_eq_false hroom]
      rfl
  · have hroom : ¬ HasRoom (s.ports i) := fun h => hused h.1
    rw [if_neg hused, if_neg hroom, sendTo, if_neg hroom, set_self, Nat.add_zero]

theorem foldl_ipcBroadcastTo (text : CString) {l : List PortSlot} (hl : l.Nodup) (n : Nat)
    (h : Numbered s) :
    let r := l.foldl (ipcBroadcastTo text) (n, s)
    Numbered r.2 ∧ r.1 = n + l.countP (fun i => HasRoom (s.ports i)) ∧
      ∀ i, r.2.ports i = if i ∈ l then sendTo text (s.ports i) else s.ports i := by
  -- by induction on the slots still to come, none of which the turns before have touched
  induction l generalizing n s with
  | nil => exact ⟨h, rfl, fun i => (if_neg List.not_mem_nil).symm⟩
  | cons j l ih =>
    obtain ⟨hj, hl⟩ := List.nodup_cons.mp hl
    rw [List.foldl_cons, ipcBroadcastTo_eq h]
    have hne (i : PortSlot) (hi : i ≠ j) : (s.set j (sendTo text (s.ports j))).ports i = s.ports i := Function.update_of_ne hi _ _
    obtain ⟨hnumbered, hcount, hports⟩ := ih hl (n + if HasRoom (s.ports j) then 1 else 0) (numbered_sendTo h text (i := j))
    refine ⟨hnumbered, hcount.trans ?_, fun i => (hports i).trans ?_⟩
    · rw [List.countP_cons, List.countP_congr fun i hi => by rw [hne i fun heq => hj (heq ▸ hi)]]
      simp only [decide_eq_true_eq]
      omega
    · by_cases hi : i = j
      · subst hi
        rw [if_neg hj, if_pos List.mem_cons_self]
        exact Function.update_self _ _ _
      · rw [hne i hi]
        simp only [List.mem_cons, hi, false_or]

theorem numbered_calls (calls : List Call) : Numbered (calls.foldl call {}) := by
  induction calls using List.reverseRecOn with
  | nil => exact ⟨fun _ hused => absurd hused Bool.false_ne_true, fun _ => valid_empty (by decide)⟩
  | append_singleton calls c ih =>
    rw [List.foldl_append]
    cases c with
    | one a => exact numbered_apply ih a
    | broadcast text =>
      cases text with
      | none => exact ih
      | some text => exact (foldl_ipcBroadcastTo text (List.nodup_finRange 16) 0 ih).1

end

/-- In every order of calls, also where texts are cut, a broadcast puts its text once at the end of
the queue of every port in use that has room, leaves all other ports alone, and answers how many
ports got it. -/
theorem broadcast_reaches (calls : List Call) (text : CString) :
    let s := calls.foldl call {}
    let r := ipcBroadcastText s (some text)
    r.1 = (List.finRange 16).countP (fun i => HasRoom (s.ports i)) ∧ ∀ i,
      if HasRoom (s.ports i) then queued (r.2.ports i) = queued (s.ports i) ++ [ipcCopyText ipcMessageMax text.val] ∧
        (r.2.ports i).used = true ∧ (r.2.ports i).portId = (s.ports i).portId ∧ (r.2.ports i).name = (s.ports i).name
      else r.2.ports i = s.ports i := by
  intro s r
  have hnumbered : Numbered s := numbered_calls calls
  obtain ⟨-, hcount, hports⟩ := foldl_ipcBroadcastTo text (List.nodup_finRange 16) 0 hnumbered
  refine ⟨hcount.trans (Nat.zero_add _), fun i => ?_⟩
  have hport : r.2.ports i = sendTo text (s.ports i) :=
    (hports i).trans (if_pos (List.mem_finRange i))
  unfold sendTo at hport
  by_cases hroom : HasRoom (s.ports i)
  · rw [if_pos hroom] at hport
    rw [if_pos hroom, hport]
    exact ⟨queued_put (hnumbered.valid i) hroom.2 _, hroom.1, rfl, rfl⟩
  · rw [if_neg hroom] at hport
    rwa [if_neg hroom]

end Monios.Analysis.PortMessages
