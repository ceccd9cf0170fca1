import Mathlib.Algebra.BigOperators.Fin
import Mathlib.Algebra.Order.BigOperators.Group.Finset
import Monios.Library.Run
import Monios.Model.Futex

/-!
# The waiters of the futexes

The waiters themselves, each with its own deadline, are kept beside the table. `Kept` is the
bookkeeping: the counters are the sums over the slots, and no address has two slots.
-/

set_option autoImplicit false

namespace Monios.Analysis.FutexWaiters

open Monios.Library Monios.Model.Futex

/-- Changing one summand changes the sum by it. -/
theorem sum_update {n : Nat} (f : Fin n → Nat) (i : Fin n) (v : Nat) :
    ∑ j, Function.update f i v j + f i = ∑ j, f j + v := by
  rw [Finset.sum_update_of_mem (Finset.mem_univ i), ← Finset.add_sum_erase _ f (Finset.mem_univ i),
    Finset.sdiff_singleton_eq_erase]
  omega

/-- The same for the slots of the table. -/
theorem sum_slots_update (m : FutexSlot → Nat) (slots : Fin 16 → FutexSlot) (i : Fin 16)
    (slot : FutexSlot) :
    ∑ j, m (Function.update slots i slot j) + m (slots i) = ∑ j, m (slots j) + m slot := by
  have h := sum_update (fun j => m (slots j)) i (m slot)
  have hfun : (fun j => m (Function.update slots i slot j)) =
      Function.update (fun j => m (slots j)) i (m slot) := by
    funext j
    exact Function.apply_update (fun _ => m) slots i slot j
  rw [← hfun] at h
  exact h

theorem le_sum_slots (m : FutexSlot → Nat) (slots : Fin 16 → FutexSlot) (i : Fin 16) :
    m (slots i) ≤ ∑ j, m (slots j) :=
  Finset.single_le_sum_of_canonicallyOrdered (f := fun j => m (slots j)) (Finset.mem_univ i)

structure SlotKept (slot : FutexSlot) : Prop where
  used_iff : slot.used = true ↔ 0 < slot.waiters
  idle : slot.used = false → slot.deadline = 0

structure Kept (s : FutexTable) : Prop where
  slot : ∀ i, SlotKept (s.slots i)
  total : s.totalWaiters = ∑ i, (s.slots i).waiters
  usedSlots : s.usedSlots = (Finset.univ.filter fun i => 0 < (s.slots i).waiters).card
  keys : ∀ i j, (s.slots i).used = true → (s.slots j).used = true → (s.slots i).address = (s.slots j).address → i = j
  small : s.totalWaiters < 2 ^ 32

def occupied (slot : FutexSlot) : Nat := if 0 < slot.waiters then 1 else 0

/-- The slots with waiters, counted one by one. -/
theorem card_eq_sum (slots : Fin 16 → FutexSlot) :
    (Finset.univ.filter fun i => 0 < (slots i).waiters).card = ∑ i, occupied (slots i) :=
  Finset.card_filter ..

section

variable {s t : FutexTable} {i : Fin 16}

/-- A slot has no more waiters than all have together. -/
theorem Kept.waiters_le (h : Kept s) (i : Fin 16) : (s.slots i).waiters ≤ s.totalWaiters := by
  rw [h.total]
  exact le_sum_slots FutexSlot.waiters s.slots i

/-- A slot with waiters is among those that are counted. -/
theorem Kept.occupied_le (h : Kept s) (i : Fin 16) : occupied (s.slots i) ≤ s.usedSlots := by
  rw [h.usedSlots, card_eq_sum]
  exact le_sum_slots occupied s.slots i

/-- A slot that is not in use has no waiters. -/
theorem Kept.idle_waiters (h : Kept s) (hidle : (s.slots i).used = false) :
    (s.slots i).waiters = 0 := by
  have hiff := (h.slot i).used_iff
  rw [hidle] at hiff
  have hnot : ¬ 0 < (s.slots i).waiters := fun hpos => Bool.false_ne_true (hiff.mpr hpos)
  omega

/-- A slot may be written when the two counters go with it. -/
theorem Kept.write (h : Kept s) {slot : FutexSlot}
    (hslots : t.slots = Function.update s.slots i slot) (hslot : SlotKept slot)
    (htotal : t.totalWaiters + (s.slots i).waiters = s.totalWaiters + slot.waiters)
    (hused : t.usedSlots + occupied (s.slots i) = s.usedSlots + occupied slot) (hkey : slot.used =
      true → ∀ j, j ≠ i → (s.slots j).used = true → (s.slots j).address ≠ slot.address)
    (hsmall : t.totalWaiters < 2 ^ 32) : Kept t where
  slot j := by
    rw [hslots]
    by_cases hj : j = i
    · rw [hj, Function.update_self]
      exact hslot
    · rw [Function.update_of_ne hj]
      exact h.slot j
  total := by
    have hsum := sum_slots_update FutexSlot.waiters s.slots i slot
    rw [h.total] at htotal
    rw [hslots]
    omega
  usedSlots := by
    have hsum := sum_slots_update occupied s.slots i slot
    rw [h.usedSlots, card_eq_sum] at hused
    rw [card_eq_sum, hslots]
    omega
  keys j k hj hk haddress := by
    rw [hslots] at hj hk haddress
    by_cases hji : j = i
    · by_cases hki : k = i
      · rw [hji, hki]
      · rw [hji, Function.update_self] at hj haddress
        rw [Function.update_of_ne hki] at hk haddress
        exact absurd haddress.symm (hkey hj k hki hk)
    · rw [Function.update_of_ne hji] at hj haddress
      by_cases hki : k = i
      · rw [hki, Function.update_self] at hk haddress
        exact absurd haddress (hkey hk j hji hj)
      · rw [Function.update_of_ne hki] at hk haddress
        exact h.keys j k hj hk haddress
  small := hsmall

end

variable {s : FutexTable}

/-- A slot that is found is in use for the address. -/
theorem futexFindSlot_some {a : UInt64} {i : Fin 16} (h : futexFindSlot s a = some i) :
    (s.slots i).used = true ∧ (s.slots i).address = a := by
  have hfound := List.find?_some h
  simp only [Bool.and_eq_true, beq_iff_eq] at hfound
  exact hfound

/-- When none is found, no slot in use is for the address. -/
theorem futexFindSlot_none {a : UInt64} (h : futexFindSlot s a = none) {i : Fin 16}
    (hused : (s.slots i).used = true) : (s.slots i).address ≠ a := by
  have hnone := List.find?_eq_none.mp h i (List.mem_finRange i)
  simp only [Bool.and_eq_true, beq_iff_eq, not_and] at hnone
  exact hnone hused

/-- The slot of an address is found: no address has two. -/
theorem Kept.find (h : Kept s) {i : Fin 16} (hused : (s.slots i).used = true) :
    futexFindSlot s (s.slots i).address = some i := by
  cases hfind : futexFindSlot s (s.slots i).address with
  | none => exact absurd rfl (futexFindSlot_none hfind hused)
  | some j =>
    obtain ⟨hj, haddress⟩ := futexFindSlot_some hfind
    rw [h.keys j i hj hused haddress]

def waitersAt (a : UInt64) (slot : FutexSlot) : Nat := if slot.address = a then slot.waiters else 0

/-- The count that is answered for an address is that of its slots. -/
theorem Kept.waiterCount (h : Kept s) (a : UInt64) :
    futexWaiterCount s a = ∑ i, waitersAt a (s.slots i) := by
  unfold futexWaiterCount
  cases hfind : futexFindSlot s a with
  | none =>
    symm
    apply Finset.sum_eq_zero
    intro i _
    unfold waitersAt
    by_cases ha : (s.slots i).address = a
    · rw [if_pos ha]
      apply h.idle_waiters
      rw [← Bool.not_eq_true]
      intro hused
      exact futexFindSlot_none hfind hused ha
    · rw [if_neg ha]
  | some i =>
    obtain ⟨hused, ha⟩ := futexFindSlot_some hfind
    symm
    have hself : waitersAt a (s.slots i) = (s.slots i).waiters := if_pos ha
    dsimp only
    rw [← hself]
    apply Finset.sum_eq_single i
    · intro j _ hj
      unfold waitersAt
      by_cases haj : (s.slots j).address = a
      · rw [if_pos haj]
        apply h.idle_waiters
        rw [← Bool.not_eq_true]
        intro husedj
        exact hj (h.keys j i husedj hused (haj.trans ha.symm))
      · rw [if_neg haj]
    · intro hno
      exact absurd (Finset.mem_univ i) hno

/-- How that count changes with a slot. -/
theorem Kept.waiterCount_write {s t : FutexTable} (hs : Kept s) (ht : Kept t) {i : Fin 16}
    {slot : FutexSlot} (hslots : t.slots = Function.update s.slots i slot) (a : UInt64) :
    futexWaiterCount t a + waitersAt a (s.slots i) = futexWaiterCount s a + waitersAt a slot := by
  rw [ht.waiterCount, hs.waiterCount, hslots]
  exact sum_slots_update (waitersAt a) s.slots i slot

def queues (s : FutexTable) (a : UInt64) : Bool :=
  decide (a ≠ 0) && (futexFindOrCreateSlot s a).1.isSome

def slotDeadline (now : Nat) (timeoutTicks : UInt32) : Nat :=
  if timeoutTicks = 0 then 0 else (now + timeoutTicks.toNat) % 2 ^ 64

def queuedSlot (slot : FutexSlot) (a : UInt64) (expected : UInt32) (deadline : Nat) :
    FutexSlot where
  used := true
  address := a
  expected := expected
  waiters := (slot.waiters + 1) % 2 ^ 32
  deadline := deadline

section

variable {s : FutexTable} {a : UInt64} {expected timeoutTicks : UInt32} {now : Nat}

/-- A wait that does not queue changes nothing. -/
theorem futexWait_refused (h : queues s a = false) :
    (futexWait now s a expected timeoutTicks).2 = s := by
  unfold futexWait
  by_cases ha : a = 0
  · rw [if_pos ha]
  · rw [if_neg ha]
    unfold queues at h
    rw [decide_eq_true ha, Bool.true_and] at h
    unfold futexFindOrCreateSlot at h ⊢
    cases hfind : futexFindSlot s a with
    | some i =>
      rw [hfind] at h
      cases h
    | none =>
      rw [hfind] at h
      cases hfree : (List.finRange 16).find? fun i => !(s.slots i).used with
      | some i =>
        rw [hfree] at h
        cases h
      | none => rfl

/-- A wait that queues adds a waiter to the slot of the address. -/
theorem futexWait_queued (now : Nat) (expected timeoutTicks : UInt32) (h : queues s a = true) : ∃ i,
    (futexWait now s a expected timeoutTicks).2.slots =
      Function.update s.slots i
        (queuedSlot (s.slots i) a expected (slotDeadline now timeoutTicks)) ∧
    (futexWait now s a expected timeoutTicks).2.totalWaiters = (s.totalWaiters + 1) % 2 ^ 32 ∧
    (((s.slots i).used = true ∧ (s.slots i).address = a ∧
        (futexWait now s a expected timeoutTicks).2.usedSlots = s.usedSlots) ∨
      ((s.slots i).used = false ∧ futexFindSlot s a = none ∧
        (futexWait now s a expected timeoutTicks).2.usedSlots = (s.usedSlots + 1) % 2 ^ 32)) := by
  unfold queues at h
  rw [Bool.and_eq_true, decide_eq_true_eq] at h
  obtain ⟨ha, hsome⟩ := h
  unfold futexWait
  rw [if_neg ha]
  unfold futexFindOrCreateSlot at hsome ⊢
  cases hfind : futexFindSlot s a with
  | some i =>
    obtain ⟨hused, haddress⟩ := futexFindSlot_some hfind
    refine ⟨i, ?_, rfl, .inl ⟨hused, haddress, rfl⟩⟩
    simp only [FutexTable.setSlot, queuedSlot, slotDeadline, hused, haddress]
  | none =>
    rw [hfind] at hsome
    cases hfree : (List.finRange 16).find? fun i => !(s.slots i).used with
    | none =>
      rw [hfree] at hsome
      cases hsome
    | some i =>
      have hidle := List.find?_some hfree
      refine ⟨i, ?_, rfl, .inr ⟨by simpa using hidle, rfl, rfl⟩⟩
      simp only [FutexTable.setSlot, Function.update_self, Function.update_idem, queuedSlot,
        slotDeadline]

/-- A wait keeps the counters, as long as they do not overflow. -/
theorem Kept.wait (h : Kept s) (hfew : s.totalWaiters + 1 < 2 ^ 32) :
    Kept (futexWait now s a expected timeoutTicks).2 := by
  cases hqueues : queues s a with
  | false =>
    rw [futexWait_refused hqueues]
    exact h
  | true =>
    obtain ⟨i, hslots, htotal, hcase⟩ := futexWait_queued now expected timeoutTicks hqueues
    have hle := h.waiters_le i
    have hwaiters : ((s.slots i).waiters + 1) % 2 ^ 32 = (s.slots i).waiters + 1 :=
      Nat.mod_eq_of_lt (by omega)
    rw [Nat.mod_eq_of_lt hfew] at htotal
    apply h.write hslots
    · refine ⟨⟨fun _ => ?_, fun _ => rfl⟩, fun hno => by cases hno⟩
      simp only [queuedSlot, hwaiters]
      omega
    · simp only [queuedSlot, hwaiters]
      omega
    · have hnew : occupied (queuedSlot (s.slots i) a expected (slotDeadline now timeoutTicks)) =
          1 := by
        simp only [occupied, queuedSlot, hwaiters]
        exact if_pos (by omega)
      rw [hnew]
      rcases hcase with ⟨hused, -, hcount⟩ | ⟨hidle, -, hcount⟩
      · have hold : occupied (s.slots i) = 1 := if_pos ((h.slot i).used_iff.mp hused)
        rw [hcount, hold]
      · have hold : occupied (s.slots i) = 0 := if_neg (by rw [h.idle_waiters hidle]; exact Nat.lt_irrefl 0)
        have hcard : s.usedSlots ≤ 16 := by
          rw [h.usedSlots]
          exact (Finset.card_le_univ _).trans (by simp)
        rw [hcount, hold]
        omega
    · intro _ j hj husedj haddressj
      rcases hcase with ⟨hused, haddress, -⟩ | ⟨-, hnone, -⟩
      · exact hj (h.keys j i husedj hused (haddressj.trans haddress.symm))
      · exact futexFindSlot_none hnone husedj haddressj
    · omega

end

theorem wakeCount_le (count waiters : Nat) : wakeCount count waiters ≤ waiters := by
  unfold wakeCount
  by_cases h : count = 0 ∨ count > waiters
  · rw [if_pos h]
  · rw [if_neg h]
    omega

/-- A count of 0 wakes all. -/
theorem wakeCount_eq (count waiters : Nat) :
    wakeCount count waiters = if count = 0 then waiters else min count waiters := by
  unfold wakeCount
  by_cases hzero : count = 0
  · rw [if_pos (.inl hzero), if_pos hzero]
  · rw [if_neg hzero]
    by_cases hmore : count > waiters
    · rw [if_pos (.inr hmore), Nat.min_eq_right (by omega)]
    · rw [if_neg (by omega), Nat.min_eq_left (by omega)]

def wokenSlot (slot : FutexSlot) (woken : Nat) : FutexSlot :=
  if slot.waiters - woken = 0 then { slot with used := false, waiters := slot.waiters - woken, deadline := 0 }
  else { slot with waiters := slot.waiters - woken }

theorem wokenSlot_waiters (slot : FutexSlot) (woken : Nat) :
    (wokenSlot slot woken).waiters = slot.waiters - woken := by
  unfold wokenSlot
  by_cases h : slot.waiters - woken = 0
  · rw [if_pos h]
  · rw [if_neg h]

theorem wokenSlot_address (slot : FutexSlot) (woken : Nat) :
    (wokenSlot slot woken).address = slot.address := by
  unfold wokenSlot
  by_cases h : slot.waiters - woken = 0
  · rw [if_pos h]
  · rw [if_neg h]

theorem decrease_of_le {counter count : Nat} (h : count ≤ counter) :
    decrease counter count = counter - count := if_pos h

section

variable {s : FutexTable} {a : UInt64} {i : Fin 16}

/-- Waking at an address without a slot does nothing. -/
theorem futexWake_none (h : futexFindSlot s a = none) (count : UInt32) :
    futexWake s a count = (0, s) := by
  unfold futexWake
  rw [h]

/-- Waking takes the waiters from the slot of the address. -/
theorem futexWake_some (h : futexFindSlot s a = some i) (count : UInt32) :
    (futexWake s a count).1 = wakeCount count.toNat (s.slots i).waiters ∧
      (futexWake s a count).2.slots =
      Function.update s.slots i
        (wokenSlot (s.slots i) (wakeCount count.toNat (s.slots i).waiters)) ∧
    (futexWake s a count).2.totalWaiters =
      decrease s.totalWaiters (wakeCount count.toNat (s.slots i).waiters) ∧
    (futexWake s a count).2.usedSlots =
      if (s.slots i).waiters - wakeCount count.toNat (s.slots i).waiters =
      0 then decrease s.usedSlots 1 else s.usedSlots := by
  unfold futexWake wokenSlot
  rw [h]
  dsimp only
  by_cases hleft : (s.slots i).waiters - wakeCount count.toNat (s.slots i).waiters = 0
  · simp only [if_pos hleft, FutexTable.setSlot, and_self]
  · simp only [if_neg hleft, FutexTable.setSlot, and_self]

/-- A wake keeps the counters. -/
theorem Kept.wake (h : Kept s) (a : UInt64) (count : UInt32) : Kept (futexWake s a count).2 := by
  cases hfind : futexFindSlot s a with
  | none =>
    rw [futexWake_none hfind]
    exact h
  | some i =>
    obtain ⟨-, hslots, htotal, hcount⟩ := futexWake_some hfind count
    obtain ⟨hused, haddress⟩ := futexFindSlot_some hfind
    have hpos := (h.slot i).used_iff.mp hused
    have hle := h.waiters_le i
    have hwoken := wakeCount_le count.toNat (s.slots i).waiters
    have hsmall := h.small
    have hone : occupied (s.slots i) = 1 := if_pos hpos
    have hocc := h.occupied_le i
    generalize wakeCount count.toNat (s.slots i).waiters = woken at hslots htotal hcount hwoken
    rw [decrease_of_le (by omega)] at htotal
    apply h.write hslots
    · unfold wokenSlot
      by_cases hleft : (s.slots i).waiters - woken = 0
      · rw [if_pos hleft]
        refine ⟨⟨fun hno => (nomatch hno), fun hlt => ?_⟩, fun _ => rfl⟩
        dsimp only at hlt
        omega
      · rw [if_neg hleft]
        refine ⟨⟨fun _ => ?_, fun _ => hused⟩, fun hno => ?_⟩
        · dsimp only
          omega
        · dsimp only at hno
          rw [hused] at hno
          cases hno
    · rw [wokenSlot_waiters]
      omega
    · rw [hone] at hocc ⊢
      rw [hcount, occupied, wokenSlot_waiters]
      by_cases hleft : (s.slots i).waiters - woken = 0
      · rw [if_pos hleft, if_neg (by omega), decrease_of_le hocc]
        omega
      · rw [if_neg hleft, if_pos (by omega)]
    · intro _ j hj husedj haddressj
      rw [wokenSlot_address] at haddressj
      exact hj (h.keys j i husedj hused haddressj)
    · omega

/-- A call wakes as many waiters as it is told, all of them for zero, and at most those of the
address; it answers how many these were, and the other addresses keep their waiters. -/
structure WakesWaiters (s : FutexTable) : Prop where
  answer : ∀ a count, (futexWake s a count).1 =
    if count.toNat = 0 then futexWaiterCount s a else min count.toNat (futexWaiterCount s a)
  rest : ∀ a count, futexWaiterCount (futexWake s a count).2 a = futexWaiterCount s a - (futexWake s a count).1
  others : ∀ a count b, b ≠ a → futexWaiterCount (futexWake s a count).2 b = futexWaiterCount s b

/-- The answer of a wake is the number of waiters woken. -/
theorem futexWake_answer (s : FutexTable) (a : UInt64) (count : UInt32) :
    (futexWake s a count).1 = wakeCount count.toNat (futexWaiterCount s a) := by
  unfold futexWaiterCount
  cases hfind : futexFindSlot s a with
  | none =>
    rw [futexWake_none hfind]
    exact (Nat.le_zero.mp (wakeCount_le count.toNat 0)).symm
  | some i => exact (futexWake_some hfind count).1

/-- Waking changes the count of its own address only. -/
theorem Kept.waiterCount_futexWake (h : Kept s) (a : UInt64) (count : UInt32) (b : UInt64) :
    futexWaiterCount (futexWake s a count).2 b =
      futexWaiterCount s b - if b = a then wakeCount count.toNat (futexWaiterCount s a) else 0 := by
  have hkept := h.wake a count
  cases hfind : futexFindSlot s a with
  | none =>
    have hzero : futexWaiterCount s a = 0 := by
      unfold futexWaiterCount
      rw [hfind]
    have hwoken := wakeCount_le count.toNat (futexWaiterCount s a)
    rw [futexWake_none hfind]
    dsimp only
    by_cases hb : b = a
    · rw [if_pos hb, hb]
      omega
    · rw [if_neg hb, Nat.sub_zero]
  | some i =>
    obtain ⟨-, hslots, -, -⟩ := futexWake_some hfind count
    obtain ⟨hused, haddress⟩ := futexFindSlot_some hfind
    have hself : futexWaiterCount s a = (s.slots i).waiters := by
      unfold futexWaiterCount
      rw [hfind]
    have hwrite := h.waiterCount_write hkept hslots b
    have hwoken := wakeCount_le count.toNat (s.slots i).waiters
    unfold waitersAt at hwrite
    rw [wokenSlot_address, wokenSlot_waiters, haddress] at hwrite
    rw [hself]
    by_cases hb : b = a
    · rw [if_pos hb]
      rw [if_pos hb.symm, if_pos hb.symm] at hwrite
      omega
    · rw [if_neg hb]
      rw [if_neg (Ne.symm hb), if_neg (Ne.symm hb)] at hwrite
      omega

/-- What a wake does in every state that is kept. -/
theorem Kept.wakesWaiters (h : Kept s) : WakesWaiters s where
  answer a count := by rw [futexWake_answer, wakeCount_eq]
  rest a count := by rw [h.waiterCount_futexWake, if_pos rfl, futexWake_answer]
  others a count b hb := by rw [h.waiterCount_futexWake, if_neg hb, Nat.sub_zero]

end

def reapedSlot (now : Nat) (slot : FutexSlot) : FutexSlot :=
  if slot.stays now then slot else { slot with used := false, waiters := 0, deadline := 0 }

/-- Reaping looks at one slot. -/
theorem futexReap_slots (now : Nat) (s : FutexTable) (i : Fin 16) :
    (futexReap now s i).slots = Function.update s.slots i (reapedSlot now (s.slots i)) := by
  unfold futexReap reapedSlot
  by_cases h : (s.slots i).stays now = true
  · dsimp only
    rw [if_pos h, if_pos h, Function.update_eq_self]
  · dsimp only
    rw [if_neg h, if_neg h]
    rfl

/-- Reaping keeps the counters. -/
theorem Kept.reap (h : Kept s) (now : Nat) (i : Fin 16) : Kept (futexReap now s i) := by
  by_cases hstays : (s.slots i).stays now = true
  · have hself : futexReap now s i = s := if_pos hstays
    rw [hself]
    exact h
  · have hused : (s.slots i).used = true := by
      unfold FutexSlot.stays at hstays
      simp only [Bool.or_eq_true, not_or, Bool.not_eq_true', Bool.not_eq_false] at hstays
      exact hstays.1.1
    have hpos := (h.slot i).used_iff.mp hused
    have hle := h.waiters_le i
    have hsmall := h.small
    have hone : occupied (s.slots i) = 1 := if_pos hpos
    have hocc := h.occupied_le i
    have hself : futexReap now s i =
        { s.setSlot i { s.slots i with used := false, waiters := 0, deadline := 0 } with
          totalWaiters := decrease s.totalWaiters (s.slots i).waiters
          usedSlots := decrease s.usedSlots 1
          timeoutReaps := (s.timeoutReaps + 1) % 2 ^ 32 } := if_neg hstays
    rw [hself, decrease_of_le hle, decrease_of_le (by omega)]
    apply h.write (i := i) rfl
    · exact ⟨⟨fun hno => (nomatch hno), fun hlt => absurd hlt (Nat.lt_irrefl 0)⟩, fun _ => rfl⟩
    · dsimp only
      omega
    · have hnone : occupied { s.slots i with used := false, waiters := 0, deadline := 0 } =
          0 := if_neg (Nat.lt_irrefl 0)
      rw [hnone, hone]
      rw [hone] at hocc
      dsimp only
      omega
    · intro hno
      cases hno
    · dsimp only
      omega

/-- Reaping several slots keeps the counters. -/
theorem Kept.reapAll (h : Kept s) (now : Nat) (l : List (Fin 16)) :
    Kept (l.foldl (futexReap now) s) := by
  induction l generalizing s with
  | nil => exact h
  | cons i l ih =>
    rw [List.foldl_cons]
    exact ih (h.reap now i)

/-- `futex_update` keeps the counters. -/
theorem Kept.update (h : Kept s) (now : Nat) : Kept (futexUpdate now s) := h.reapAll now _

/-- Reaping several slots reaps each of them once. -/
theorem reapAll_slots (now : Nat) (s : FutexTable) {l : List (Fin 16)} (hl : l.Nodup) (j : Fin 16) :
    (l.foldl (futexReap now) s).slots j =
      if j ∈ l then reapedSlot now (s.slots j) else s.slots j := by
  induction l generalizing s with
  | nil => rfl
  | cons i l ih =>
    obtain ⟨hi, hl⟩ := List.nodup_cons.mp hl
    rw [List.foldl_cons, ih (futexReap now s i) hl, futexReap_slots]
    by_cases hji : j = i
    · rw [hji, if_neg hi, Function.update_self, if_pos List.mem_cons_self]
    · rw [Function.update_of_ne hji]
      by_cases hj : j ∈ l
      · rw [if_pos hj, if_pos (List.mem_cons_of_mem _ hj)]
      · rw [if_neg hj, if_neg (by simp [hji, hj])]

/-- `futex_update` reaps every slot. -/
theorem futexUpdate_slots (now : Nat) (s : FutexTable) (j : Fin 16) :
    (futexUpdate now s).slots j = reapedSlot now (s.slots j) := by
  unfold futexUpdate
  rw [reapAll_slots now s (List.nodup_finRange 16), if_pos (List.mem_finRange j)]

structure Waiter where
  address : UInt64
  deadline : Option Nat
  deriving DecidableEq

def newWaiter (now : Nat) (a : UInt64) (timeoutTicks : UInt32) : Waiter where
  address := a
  deadline := if timeoutTicks = 0 then none else some (now + timeoutTicks.toNat)

def Waiter.passed (now : Nat) (w : Waiter) : Bool := w.deadline.any fun d => decide (d ≤ now)

def release (a : UInt64) : Nat → List Waiter → List Waiter
  | 0, ws => ws
  | _ + 1, [] => []
  | n + 1, w :: ws => if w.address = a then release a n ws else w :: release a (n + 1) ws

def waitingAt (ws : List Waiter) (a : UInt64) : Nat := ws.countP fun w => w.address == a

structure Observed where
  timed : TimedTable := {}
  waiting : List Waiter := []

/-- Who waits after a call: the new waiter as well, or fewer of an address, or those whose timeout
has not passed. -/
def noteWaiters (s : TimedTable) (ws : List Waiter) : FutexOp → List Waiter
  | .wait a _ timeoutTicks => if queues s.table a then ws ++
    [newWaiter s.ticks a timeoutTicks] else ws
  | .wake a count => release a
    (if count.toNat = 0 then waitingAt ws a else min count.toNat (waitingAt ws a)) ws
  | .update => ws.filter fun w => !w.passed s.ticks
  | .tick _ => ws

def observedStep (s : Observed) (op : FutexOp) : Option Observed :=
  (futexStep s.timed op).map fun t => ⟨t, noteWaiters s.timed s.waiting op⟩

def Few (s : Observed) : FutexOp → Prop
  | .wait _ _ _ => s.timed.table.totalWaiters + 1 < 2 ^ 32
  | _ => True

def Alike (s : Observed) : FutexOp → Prop
  | .wait a _ timeoutTicks =>
    (timeoutTicks ≠ 0 → s.timed.ticks + timeoutTicks.toNat < 2 ^ 64) ∧
      ∀ w ∈ s.waiting, w.address = a → w.deadline = (newWaiter s.timed.ticks a timeoutTicks).deadline
  | _ => True

/-- Every call keeps the counters, as long as they do not overflow. -/
theorem kept_step {s s' : Observed} {op : FutexOp} (hfew : Few s op) (h : Kept s.timed.table)
    (hstep : observedStep s op = some s') :
    Kept s'.timed.table := by
  obtain ⟨t, ht, rfl⟩ := Option.map_eq_some_iff.mp hstep
  cases op with
  | wait a expected timeoutTicks =>
    cases ht
    exact h.wait hfew
  | wake a count =>
    cases ht
    exact h.wake a count
  | update =>
    cases ht
    exact h.update s.timed.ticks
  | tick ticks =>
    unfold futexStep at ht
    by_cases hticks : s.timed.ticks ≤ ticks ∧ ticks < 2 ^ 64
    · simp only [if_pos hticks] at ht
      cases ht
      exact h
    · simp only [if_neg hticks] at ht
      cases ht

/-- They are kept at the start. -/
theorem kept_start : Kept {} where
  slot _ := ⟨⟨fun hno => (nomatch hno), fun hlt => absurd hlt (Nat.lt_irrefl 0)⟩, fun _ => rfl⟩
  total := by simp
  usedSlots := by simp
  keys _ _ hno := by cases hno
  small := by decide

/-- The counts are those of the waiters, and the slot of an address has the deadline of each of its
waiters. -/
structure Agrees (s : Observed) : Prop where
  count : ∀ a, futexWaiterCount s.timed.table a = waitingAt s.waiting a
  deadline : ∀ w ∈ s.waiting, ∀ i, (s.timed.table.slots i).used = true → (s.timed.table.slots i).address = w.address →
    (s.timed.table.slots i).deadline = w.deadline.getD 0
  nonzero : ∀ w ∈ s.waiting, w.deadline ≠ some 0

theorem newWaiter_getD {now : Nat} {timeoutTicks : UInt32}
    (h : timeoutTicks ≠ 0 → now + timeoutTicks.toNat < 2 ^ 64) (a : UInt64) :
    (newWaiter now a timeoutTicks).deadline.getD 0 = slotDeadline now timeoutTicks := by
  unfold newWaiter slotDeadline
  by_cases hzero : timeoutTicks = 0
  · simp only [if_pos hzero, Option.getD_none]
  · simp only [if_neg hzero, Option.getD_some]
    exact (Nat.mod_eq_of_lt (h hzero)).symm

/-- A deadline that is noted is never 0, the mark for none. -/
theorem newWaiter_nonzero (now : Nat) (a : UInt64) (timeoutTicks : UInt32) :
    (newWaiter now a timeoutTicks).deadline ≠ some 0 := by
  unfold newWaiter
  by_cases hzero : timeoutTicks = 0
  · simp only [if_pos hzero]
    exact nofun
  · simp only [if_neg hzero]
    intro h
    have hsum := Option.some.inj h
    have hpos : timeoutTicks.toNat ≠ 0 := fun hno => hzero (UInt32.toNat.inj hno)
    omega

/-- A wait that queues adds its waiter. -/
theorem Agrees.wait {s : Observed} (h : Agrees s) (hkept : Kept s.timed.table) {a : UInt64}
    {expected timeoutTicks : UInt32} (hfew : Few s (.wait a expected timeoutTicks))
    (halike : Alike s (.wait a expected timeoutTicks)) (hqueues : queues s.timed.table a = true) :
    Agrees ⟨{ s.timed with table := (futexWait s.timed.ticks s.timed.table a expected timeoutTicks).2 },
      s.waiting ++ [newWaiter s.timed.ticks a timeoutTicks]⟩ := by
  have hkept' : Kept (futexWait s.timed.ticks s.timed.table a expected timeoutTicks).2 :=
    hkept.wait hfew
  obtain ⟨i, hslots, -, hcase⟩ := futexWait_queued s.timed.ticks expected timeoutTicks hqueues
  have hle := hkept.waiters_le i
  have hroom : s.timed.table.totalWaiters + 1 < 2 ^ 32 := hfew
  have hwaiters : ((s.timed.table.slots i).waiters + 1) % 2 ^ 32 =
      (s.timed.table.slots i).waiters + 1 :=
    Nat.mod_eq_of_lt (by omega)
  refine ⟨fun b => ?_, fun w hw j hused haddress => ?_, fun w hw => ?_⟩
  · have hwrite := hkept.waiterCount_write hkept' hslots b
    have hcount := h.count b
    have hnew : waitingAt (s.waiting ++ [newWaiter s.timed.ticks a timeoutTicks]) b =
        waitingAt s.waiting b + if a = b then 1 else 0 := by
      unfold waitingAt
      rw [List.countP_append, List.countP_singleton]
      simp only [newWaiter, beq_iff_eq]
    rw [hnew, ← hcount]
    unfold waitersAt queuedSlot at hwrite
    rw [hwaiters] at hwrite
    rcases hcase with ⟨-, haddress, -⟩ | ⟨hidle, -, -⟩
    · rw [haddress] at hwrite
      by_cases hb : a = b
      · rw [if_pos hb]
        rw [if_pos hb, if_pos hb] at hwrite
        dsimp only at hwrite ⊢
        omega
      · rw [if_neg hb]
        rw [if_neg hb, if_neg hb] at hwrite
        exact hwrite
    · have hzero : (if (s.timed.table.slots i).address = b then (s.timed.table.slots i).waiters else 0) = 0 := by
        rw [hkept.idle_waiters hidle]
        exact ite_self 0
      rw [hzero, hkept.idle_waiters hidle] at hwrite
      exact hwrite
  · dsimp only at hused haddress ⊢
    rw [hslots] at hused haddress ⊢
    by_cases hj : j = i
    · rw [hj, Function.update_self] at haddress ⊢
      have hdeadline : w.deadline = (newWaiter s.timed.ticks a timeoutTicks).deadline := by
        rcases List.mem_append.mp hw with hw | hw
        · exact halike.2 w hw haddress.symm
        · rw [List.mem_singleton.mp hw]
      rw [hdeadline, newWaiter_getD halike.1]
      rfl
    · rw [Function.update_of_ne hj] at hused haddress ⊢
      rcases List.mem_append.mp hw with hw | hw
      · exact h.deadline w hw j hused haddress
      · rw [List.mem_singleton.mp hw] at haddress
        rcases hcase with ⟨husedi, haddressi, -⟩ | ⟨-, hnone, -⟩
        · exact absurd (hkept.keys j i hused husedi (haddress.trans haddressi.symm)) hj
        · exact absurd haddress (futexFindSlot_none hnone hused)
  · rcases List.mem_append.mp hw with hw | hw
    · exact h.nonzero w hw
    · rw [List.mem_singleton.mp hw]
      exact newWaiter_nonzero _ _ _

theorem release_subset (a : UInt64) (n : Nat) (ws : List Waiter) :
    ∀ w ∈ release a n ws, w ∈ ws := by
  induction ws generalizing n with
  | nil => cases n <;> exact fun w hw => hw
  | cons v ws ih =>
    cases n with
    | zero => exact fun w hw => hw
    | succ n =>
      intro w hw
      rw [release] at hw
      by_cases hv : v.address = a
      · rw [if_pos hv] at hw
        exact List.mem_cons_of_mem _ (ih n w hw)
      · rw [if_neg hv] at hw
        rcases List.mem_cons.mp hw with rfl | hw
        · exact List.mem_cons_self
        · exact List.mem_cons_of_mem _ (ih (n + 1) w hw)

theorem waitingAt_cons (v : Waiter) (ws : List Waiter) (b : UInt64) :
    waitingAt (v :: ws) b = waitingAt ws b + if v.address = b then 1 else 0 := by
  unfold waitingAt
  rw [List.countP_cons]
  simp only [beq_iff_eq]

/-- Releasing waiters of an address lowers the number of those that wait there. -/
theorem waitingAt_release (a : UInt64) (n : Nat) (ws : List Waiter) (b : UInt64) :
    waitingAt (release a n ws) b = waitingAt ws b - if b = a then n else 0 := by
  induction ws generalizing n with
  | nil => cases n <;> simp [release, waitingAt]
  | cons v ws ih =>
    cases n with
    | zero => simp [release]
    | succ n =>
      rw [release, waitingAt_cons]
      by_cases hv : v.address = a
      · rw [if_pos hv, ih, hv]
        by_cases hb : b = a
        · rw [if_pos hb, if_pos hb, if_pos hb.symm]
          omega
        · rw [if_neg hb, if_neg hb, if_neg (Ne.symm hb), Nat.add_zero]
      · rw [if_neg hv, waitingAt_cons, ih]
        by_cases hb : b = a
        · have hvb : v.address ≠ b := fun heq => hv (heq.trans hb)
          rw [if_pos hb, if_neg hvb]
          omega
        · rw [if_neg hb]
          omega

/-- A wake releases as many waiters as it answers. -/
theorem Agrees.wake {s : Observed} (h : Agrees s) (hkept : Kept s.timed.table) (a : UInt64)
    (count : UInt32) :
    Agrees ⟨{ s.timed with table := (futexWake s.timed.table a count).2 }, noteWaiters s.timed s.waiting (.wake a count)⟩ := by
  refine ⟨fun b => ?_, fun w hw i hused haddress => ?_, fun w hw => h.nonzero w (release_subset _ _ _ w hw)⟩
  · unfold noteWaiters
    rw [waitingAt_release, hkept.waiterCount_futexWake, wakeCount_eq, h.count, h.count]
  · have hw' := release_subset _ _ _ w hw
    dsimp only at hused haddress ⊢
    cases hfind : futexFindSlot s.timed.table a with
    | none =>
      rw [futexWake_none hfind] at hused haddress ⊢
      exact h.deadline w hw' i hused haddress
    | some k =>
      obtain ⟨-, hslots, -, -⟩ := futexWake_some hfind count
      rw [hslots] at hused haddress ⊢
      by_cases hi : i = k
      · subst hi
        rw [Function.update_self] at hused haddress ⊢
        rw [wokenSlot_address] at haddress
        have hself := h.deadline w hw' i (futexFindSlot_some hfind).1 haddress
        unfold wokenSlot at hused ⊢
        by_cases hleft : (s.timed.table.slots i).waiters - wakeCount count.toNat (s.timed.table.slots i).waiters = 0
        · rw [if_pos hleft] at hused
          cases hused
        · rw [if_neg hleft]
          exact hself
      · rw [Function.update_of_ne hi] at hused haddress ⊢
        exact h.deadline w hw' i hused haddress

/-- A slot in use after reaping was not due. -/
theorem reapedSlot_used {now : Nat} {slot : FutexSlot} (h : (reapedSlot now slot).used = true) :
    slot.stays now = true ∧ reapedSlot now slot = slot := by
  unfold reapedSlot at h ⊢
  by_cases hstays : slot.stays now = true
  · exact ⟨hstays, if_pos hstays⟩
  · rw [if_neg hstays] at h
    cases h

/-- A slot stays if and only if the deadline of its waiters is not over. -/
theorem stays_eq {slot : FutexSlot} (hused : slot.used = true) {w : Waiter}
    (hdeadline : slot.deadline = w.deadline.getD 0) (hnonzero : w.deadline ≠ some 0) (now : Nat) :
    slot.stays now = !w.passed now := by
  unfold FutexSlot.stays Waiter.passed
  rw [hused, hdeadline]
  cases hd : w.deadline with
  | none => rfl
  | some d =>
    have hpos : d ≠ 0 := by
      rintro rfl
      exact hnonzero hd
    rw [Option.getD_some, Option.any_some, beq_false_of_ne hpos, ← decide_not]
    simp

/-- Reaping releases exactly the waiters whose time is over. -/
theorem Agrees.update {s : Observed} (h : Agrees s) (hkept : Kept s.timed.table) :
    Agrees ⟨{ s.timed with table := futexUpdate s.timed.ticks s.timed.table },
      s.waiting.filter fun w => !w.passed s.timed.ticks⟩ := by
  have hkept' := hkept.update s.timed.ticks
  have hsame {j : Fin 16} (hused : ((futexUpdate s.timed.ticks s.timed.table).slots j).used = true) :
      (s.timed.table.slots j).stays s.timed.ticks = true ∧
        (futexUpdate s.timed.ticks s.timed.table).slots j = s.timed.table.slots j := by
    rw [futexUpdate_slots] at hused ⊢
    exact reapedSlot_used hused
  refine ⟨fun a => ?_, fun w hw j hused haddress => ?_, fun w hw => h.nonzero w (List.mem_of_mem_filter hw)⟩
  · have hcount := h.count a
    dsimp only
    cases hfind : futexFindSlot s.timed.table a with
    | none =>
      -- No slot for the address before, and so none afterwards.
      have hnone : futexFindSlot (futexUpdate s.timed.ticks s.timed.table) a = none := by
        cases hfind' : futexFindSlot (futexUpdate s.timed.ticks s.timed.table) a with
        | none => rfl
        | some j =>
          obtain ⟨hused, haddress⟩ := futexFindSlot_some hfind'
          have hslot := (hsame hused).2
          rw [hslot] at hused haddress
          exact absurd haddress (futexFindSlot_none hfind hused)
      have hzero : waitingAt s.waiting a = 0 := by
        rw [← hcount, futexWaiterCount, hfind]
      have hle : waitingAt (s.waiting.filter fun w => !w.passed s.timed.ticks) a ≤
          waitingAt s.waiting a :=
        List.filter_sublist.countP_le
      rw [futexWaiterCount, hnone]
      dsimp only
      omega
    | some i =>
      obtain ⟨hused, haddress⟩ := futexFindSlot_some hfind
      have hpassed (w : Waiter) (hw : w ∈ s.waiting) (ha : w.address = a) :
          (s.timed.table.slots i).stays s.timed.ticks = !w.passed s.timed.ticks :=
        stays_eq hused (h.deadline w hw i hused (haddress.trans ha.symm)) (h.nonzero w hw) s.timed.ticks
      cases hstays : (s.timed.table.slots i).stays s.timed.ticks with
      | true =>
        have hslot : (futexUpdate s.timed.ticks s.timed.table).slots i = s.timed.table.slots i := by
          rw [futexUpdate_slots]
          exact if_pos hstays
        have hfind' := hkept'.find (hslot ▸ hused)
        rw [hslot, haddress] at hfind'
        have hfilter : waitingAt (s.waiting.filter fun w => !w.passed s.timed.ticks) a =
            waitingAt s.waiting a := by
          unfold waitingAt
          rw [List.countP_filter]
          apply List.countP_congr
          intro w hw
          rw [Bool.and_eq_true, beq_iff_eq]
          refine ⟨fun hboth => hboth.1, fun ha => ⟨ha, ?_⟩⟩
          rw [← hpassed w hw ha, hstays]
        rw [hfilter, ← hcount, futexWaiterCount, futexWaiterCount, hfind, hfind']
        dsimp only
        rw [hslot]
      | false =>
        have hnone : futexFindSlot (futexUpdate s.timed.ticks s.timed.table) a = none := by
          cases hfind' : futexFindSlot (futexUpdate s.timed.ticks s.timed.table) a with
          | none => rfl
          | some j =>
            obtain ⟨husedj, haddressj⟩ := futexFindSlot_some hfind'
            obtain ⟨hstaysj, hslotj⟩ := hsame husedj
            rw [hslotj] at husedj haddressj
            have hji := hkept.keys j i husedj hused (haddressj.trans haddress.symm)
            rw [hji, hstays] at hstaysj
            cases hstaysj
        have hfilter : waitingAt (s.waiting.filter fun w => !w.passed s.timed.ticks) a = 0 := by
          unfold waitingAt
          rw [List.countP_eq_zero]
          intro w hw
          obtain ⟨hw, hnot⟩ := List.mem_filter.mp hw
          rw [beq_iff_eq]
          intro ha
          rw [← hpassed w hw ha, hstays] at hnot
          cases hnot
        rw [hfilter, futexWaiterCount, hnone]
  · obtain ⟨-, hslot⟩ := hsame hused
    dsimp only at hused haddress ⊢
    rw [hslot] at hused haddress ⊢
    exact h.deadline w (List.mem_of_mem_filter hw) j hused haddress

/-- Every call releases the waiters that it should, when all waiters of an address have one
deadline. -/
theorem agrees_step {s s' : Observed} {op : FutexOp} (hfew : Few s op) (halike : Alike s op)
    (h : Kept s.timed.table ∧ Agrees s) (hstep : observedStep s op = some s') :
    Kept s'.timed.table ∧ Agrees s' := by
  refine ⟨kept_step hfew h.1 hstep, ?_⟩
  obtain ⟨t, ht, rfl⟩ := Option.map_eq_some_iff.mp hstep
  cases op with
  | wait a expected timeoutTicks =>
    cases ht
    cases hqueues : queues s.timed.table a with
    | true =>
      have hnote : noteWaiters s.timed s.waiting (.wait a expected timeoutTicks) =
          s.waiting ++ [newWaiter s.timed.ticks a timeoutTicks] := if_pos hqueues
      rw [hnote]
      exact h.2.wait h.1 hfew halike hqueues
    | false =>
      have hnote : noteWaiters s.timed s.waiting (.wait a expected timeoutTicks) = s.waiting :=
        if_neg (by rw [hqueues]; exact Bool.false_ne_true)
      rw [hnote, futexWait_refused hqueues]
      exact h.2
  | wake a count =>
    cases ht
    exact h.2.wake h.1 a count
  | update =>
    cases ht
    exact h.2.update h.1
  | tick ticks =>
    unfold futexStep at ht
    by_cases hticks : s.timed.ticks ≤ ticks ∧ ticks < 2 ^ 64
    · simp only [if_pos hticks] at ht
      cases ht
      exact ⟨h.2.count, h.2.deadline, h.2.nonzero⟩
    · simp only [if_neg hticks] at ht
      cases ht

/-- At the start nobody waits. -/
theorem agrees_start : Agrees {} where
  count a := by
    unfold futexWaiterCount
    cases hfind : futexFindSlot {} a with
    | none => rfl
    | some i => exact absurd (futexFindSlot_some hfind).1 Bool.false_ne_true
  deadline _ hw := by cases hw
  nonzero _ hw := by cases hw

/-- In every run with fewer than `2 ^ 32` waiters the bookkeeping is right, and calls wake the
waiters of their address; and where the waiters of an address have the same deadline, those leave by
timeout whose own timeout has passed. -/
theorem futex_of_run {ops : List FutexOp} {s : Observed} (h : RunWhile observedStep Few {} ops s) :
    Kept s.timed.table ∧ WakesWaiters s.timed.table ∧
      (RunWhile observedStep Alike {} ops s →
        ∀ a, futexWaiterCount s.timed.table a = waitingAt s.waiting a) := by
  have hkept : Kept s.timed.table :=
    h.invariant (I := fun s => Kept s.timed.table) (fun _ _ _ => kept_step) kept_start
  refine ⟨hkept, hkept.wakesWaiters, fun halike => ?_⟩
  have hboth : Kept s.timed.table ∧ Agrees s :=
    (h.and halike).invariant (I := fun s => Kept s.timed.table ∧ Agrees s)
      (fun _ _ _ hc hs hstep => agrees_step hc.1 hc.2 hs hstep) ⟨kept_start, agrees_start⟩
  exact hboth.2.count

def waitTwice (timeoutTicks : UInt32) : List FutexOp :=
  [.wait 1 0 5, .wait 1 0 timeoutTicks, .tick 5, .update]

/-- The waiter without a timeout makes the other one wait for ever, although its own timeout has
passed; and a call that is told to wake no waiter wakes all. -/
theorem last_deadline_counts :
    (∃ ops s, Run observedStep {} ops s ∧
      ∃ a, futexWaiterCount s.timed.table a ≠ waitingAt s.waiting a) ∧
      ∃ ops s, Run observedStep {} ops s ∧ ∃ a count,
        (futexWake s.timed.table a count).1 ≠ min count.toNat
          (futexWaiterCount s.timed.table a) := by
  obtain ⟨s, hs⟩ : ∃ s, (waitTwice 0).foldlM observedStep {} = some s := ⟨_, rfl⟩
  have hrun : Run observedStep {} (waitTwice 0) s := Run.of_foldlM hs
  refine ⟨⟨_, s, hrun, 1, ?_⟩, ⟨_, s, hrun, 1, 0, ?_⟩⟩
  · cases hs
    decide +kernel
  · cases hs
    decide +kernel

/-- Two waits with the same timeout: both waiters are released when it is over. -/
theorem futex_of_waitTwice :
    ∃ s, RunWhile observedStep Few {} (waitTwice 5) s ∧
      futexWaiterCount s.timed.table 1 = waitingAt s.waiting 1 ∧
      s.waiting = [] := by
  have hfew : RunWhile observedStep Few {} (waitTwice 5) _ :=
    .cons (show 0 + 1 < 2 ^ 32 by decide) rfl
      (.cons (show 1 + 1 < 2 ^ 32 by decide) rfl (.cons trivial rfl (.cons trivial rfl (.nil _))))
  have halike : RunWhile observedStep Alike {} (waitTwice 5) _ :=
    .cons ⟨fun _ => by decide, by decide⟩ rfl
      (.cons ⟨fun _ => by decide, by decide⟩ rfl (.cons trivial rfl (.cons trivial rfl (.nil _))))
  refine ⟨_, hfew, (futex_of_run hfew).2.2 halike 1, ?_⟩
  rfl

end Monios.Analysis.FutexWaiters
