import Monios.Library.Run
import Monios.Model.ProcTable

/-!
# Slots of the process table

What the calls that make, end and collect processes do to the table. An entry is in use exactly when
the pool has handed its slot out, the counter of the pool is the number of slots handed out, and the
pids of the entries are distinct until the counter of pids wraps.
-/

set_option autoImplicit false

namespace Monios.Analysis

open Monios.Library Monios.Library.Bitmap Monios.Model.ProcTable
open Monios.Model (Pcb PcbState pcbFdInit waitpidReapable)

variable {i : Fin 64} {t t' : Table} {n : Nat} {p : Pcb}

/-- Nothing but the states of processes, what they wait for, their exit codes and the current
process have changed. -/
structure SameSlots (t t' : Table) : Prop where
  used : ∀ i, (t'.pcbs i).used = (t.pcbs i).used
  pid : ∀ i, (t'.pcbs i).pid = (t.pcbs i).pid
  fdTable : ∀ i, (t'.pcbs i).fdTable = (t.pcbs i).fdTable
  pool : t'.pool = t.pool
  nextPid : t'.nextPid = t.nextPid

namespace SameSlots

/-- A table has the slots of itself. -/
theorem refl (t : Table) : SameSlots t t := ⟨fun _ => rfl, fun _ => rfl, fun _ => rfl, rfl, rfl⟩

/-- Having the same slots is transitive. -/
theorem trans {t t' t'' : Table} (h : SameSlots t t') (h' : SameSlots t' t'') :
    SameSlots t t'' where
  used i := by rw [h'.used, h.used]
  pid i := by rw [h'.pid, h.pid]
  fdTable i := by rw [h'.fdTable, h.fdTable]
  pool := by rw [h'.pool, h.pool]
  nextPid := by rw [h'.nextPid, h.nextPid]

/-- Writing an entry that keeps its flag, its pid and its descriptor table keeps the slots. -/
theorem setPcb {t : Table} (hused : p.used = (t.pcbs i).used) (hpid : p.pid = (t.pcbs i).pid)
    (hfd : p.fdTable = (t.pcbs i).fdTable) : SameSlots t (t.setPcb i p) := by
  have hentry (j : Fin 64) : (t.setPcb i p).pcbs j = if j = i then p else t.pcbs j := Function.update_apply _ _ _ _
  refine ⟨fun j => ?_, fun j => ?_, fun j => ?_, rfl, rfl⟩
  · rw [hentry]
    split
    · next h => rw [h, hused]
    · rfl
  · rw [hentry]
    split
    · next h => rw [h, hpid]
    · rfl
  · rw [hentry]
    split
    · next h => rw [h, hfd]
    · rfl

end SameSlots

/-- Finishing a process keeps the slots. -/
theorem sameSlots_pcbFinishProcess (pid : Int) (state : PcbState) (exitCode : Int) (t : Table) :
    SameSlots t (pcbFinishProcess pid state exitCode t) := by
  have hwake (t : Table) (p : Pcb) : SameSlots t (pcbWakeParent pid p t) := by
    unfold pcbWakeParent
    split
    · exact .refl t
    · split
      · exact .setPcb rfl rfl rfl
      · exact .refl t
  unfold pcbFinishProcess
  split
  · exact .refl t
  · next i _ =>
    refine .trans (.setPcb (p := { t.pcbs i with state := state, exitCode := exitCode }) rfl rfl rfl) (.trans ?_ (hwake _ _))
    split
    · exact ⟨fun _ => rfl, fun _ => rfl, fun _ => rfl, rfl, rfl⟩
    · exact .refl _

/-- A change of state keeps the slots. -/
theorem sameSlots_pcbSetState (pid : Int) (state : PcbState) (t : Table) :
    SameSlots t (pcbSetState pid state t) := by
  unfold pcbSetState
  split
  · exact .setPcb rfl rfl rfl
  · exact .refl t

/-- A process with the entry `p` was made in slot `i`, which was free or has been taken from another
process. -/
structure Made (t : Table) (i : Fin 64) (p : Pcb) (t' : Table) : Prop where
  slot : t.pool.map i = false ∨ (∀ j, t.pool.map j = true) ∧ recycled t = some i
  pcbs : t'.pcbs = Function.update t.pcbs i p
  map : t'.pool.map = Function.update t.pool.map i true
  count : t'.pool.used = (if t.pool.map i then (poolFreeSlot t.pool i).used else t.pool.used) + 1
  nextPid : t'.nextPid = (t.nextPid + 1) % 2 ^ 32
  used : p.used = true
  pid : p.pid = t.nextPid

/-- A slot that is taken is the first one that was free, and it is counted. -/
theorem poolAllocSlot_some {pool pool' : Pool} (h : poolAllocSlot pool = some (i, pool')) :
    firstClear pool.map = some i ∧ pool' = ⟨Function.update pool.map i true, pool.used + 1⟩ := by
  unfold poolAllocSlot at h
  split at h
  · next j hj =>
    simp only [Option.some.injEq, Prod.mk.injEq] at h
    obtain ⟨rfl, rfl⟩ := h
    exact ⟨hj, rfl⟩
  · cases h

/-- No slot is taken only from a pool that has none. -/
theorem poolAllocSlot_none {pool : Pool} (h : poolAllocSlot pool = none) :
    ∀ i, pool.map i = true := by
  unfold poolAllocSlot at h
  split at h
  · cases h
  · next hnone => exact firstClear_none.mp hnone

/-- A claimed slot is a free one of the pool, or a dead one that is used again, or there is neither.
-/
theorem pcbClaimSlot_cases (t : Table) : (∃ i, t.pool.map i = false ∧
        pcbClaimSlot t = some (i, { t with pool := ⟨Function.update t.pool.map i true, t.pool.used + 1⟩ })) ∨
      (∃ i, (∀ j, t.pool.map j = true) ∧ recycled t = some i ∧ pcbClaimSlot t = some (i, { t with
          pcbs := Function.update t.pcbs i {}
          pool := ⟨Function.update t.pool.map i true, (poolFreeSlot t.pool i).used + 1⟩ })) ∨
      (∀ j, t.pool.map j = true) ∧ recycled t = none ∧ pcbClaimSlot t = none := by
  unfold pcbClaimSlot
  cases halloc : poolAllocSlot t.pool with
  | some r =>
    obtain ⟨i, pool⟩ := r
    obtain ⟨hi, rfl⟩ := poolAllocSlot_some halloc
    exact Or.inl ⟨i, firstClear_some hi, rfl⟩
  | none =>
    have hfull := poolAllocSlot_none halloc
    refine Or.inr ?_
    cases hrec : recycled t with
    | none => exact Or.inr ⟨hfull, rfl, rfl⟩
    | some i =>
      refine Or.inl ⟨i, hfull, rfl, ?_⟩
      have hfreed : (poolFreeSlot t.pool i).map = Function.update t.pool.map i false := by
        unfold poolFreeSlot
        rw [if_pos (hfull i)]
      dsimp only [Table.setPcb]
      unfold poolAllocSlot
      rw [hfreed, firstClear_update hfull i]
      dsimp only
      rw [Function.update_idem]
      rfl

/-- Starting a process makes one entry, or finds no slot and changes nothing. -/
theorem made_pcbProcessStart (path : Option String) (t : Table) :
    (∃ i, Made t i (startedPcb i t.nextPid path) (pcbProcessStart path t).2) ∨
      (∀ j, t.pool.map j = true) ∧ recycled t = none ∧ (pcbProcessStart path t).2 = t := by
  rcases pcbClaimSlot_cases t with ⟨i, hfree, h⟩ | ⟨i, hfull, hrec, h⟩ | ⟨hfull, hrec, h⟩
  · refine Or.inl ⟨i, ?_⟩
    unfold pcbProcessStart
    rw [h]
    exact ⟨Or.inl hfree, rfl, rfl, by rw [hfree]; rfl, rfl, rfl, rfl⟩
  · refine Or.inl ⟨i, ?_⟩
    unfold pcbProcessStart
    rw [h]
    exact ⟨Or.inr ⟨hfull, hrec⟩, Function.update_idem _ _ _, rfl, by rw [hfull i]; rfl, rfl, rfl, rfl⟩
  · refine Or.inr ⟨hfull, hrec, ?_⟩
    unfold pcbProcessStart
    rw [h]

def childPcb (t : Table) (i : Fin 64) (parentPid : Int) : Pcb :=
  let child := freshChild i t.nextPid parentPid
  inherit child ((pcbFindByPid (t.setPcb i child) parentPid).map (t.setPcb i child).pcbs)

/-- The entry of a child is in use. -/
theorem childPcb_used (t : Table) (i : Fin 64) (parentPid : Int) :
    (childPcb t i parentPid).used = true := by
  unfold childPcb inherit
  dsimp only
  split
  · rfl
  · rfl

/-- A child gets the next pid. -/
theorem childPcb_pid (t : Table) (i : Fin 64) (parentPid : Int) :
    (childPcb t i parentPid).pid = t.nextPid := by
  unfold childPcb inherit
  dsimp only
  split
  · rfl
  · rfl

/-- Creating a child makes one entry, or finds no slot and changes nothing. -/
theorem made_pcbCreateChild (parentPid : Int) (t : Table) :
    (∃ i, Made t i (childPcb t i parentPid) (pcbCreateChild parentPid t).2) ∨
      (∀ j, t.pool.map j = true) ∧ recycled t = none ∧ (pcbCreateChild parentPid t).2 = t := by
  -- only the entries matter for the lookup of the parent
  have hentry (i : Fin 64) (pool : Pool) (next : Nat) (pcbs : Fin 64 → Pcb)
      (hpcbs : Function.update pcbs i (freshChild i t.nextPid parentPid) =
        Function.update t.pcbs i (freshChild i t.nextPid parentPid)) :
      let u := Table.setPcb ⟨pcbs, pool, next, t.currentPid⟩ i (freshChild i t.nextPid parentPid)
      inherit (freshChild i t.nextPid parentPid) ((pcbFindByPid u parentPid).map u.pcbs) = childPcb t i parentPid := by
    unfold childPcb pcbFindByPid Table.setPcb
    dsimp only
    rw [hpcbs]
  rcases pcbClaimSlot_cases t with ⟨i, hfree, h⟩ | ⟨i, hfull, hrec, h⟩ | ⟨hfull, hrec, h⟩
  · refine Or.inl ⟨i, ?_⟩
    unfold pcbCreateChild
    rw [h]
    refine ⟨Or.inl hfree, ?_, rfl, by rw [hfree]; rfl, rfl, childPcb_used t i parentPid, childPcb_pid t i parentPid⟩
    rw [← hentry i _ _ t.pcbs rfl]
    exact Function.update_idem _ _ _
  · refine Or.inl ⟨i, ?_⟩
    unfold pcbCreateChild
    rw [h]
    refine ⟨Or.inr ⟨hfull, hrec⟩, ?_, rfl, by rw [hfull i]; rfl, rfl, childPcb_used t i parentPid,
      childPcb_pid t i parentPid⟩
    rw [← hentry i _ _ (Function.update t.pcbs i {}) (Function.update_idem _ _ _)]
    refine (Function.update_idem _ _ _).trans (Function.update_idem _ _ _)
  · refine Or.inr ⟨hfull, hrec, ?_⟩
    unfold pcbCreateChild
    rw [h]

structure Collected (t : Table) (i : Fin 64) (t' : Table) : Prop where
  used : (t.pcbs i).used = true
  reapable : waitpidReapable (t.pcbs i).state = true
  pcbs : t'.pcbs = Function.update t.pcbs i {}
  pool : t'.pool = poolFreeSlot t.pool i
  nextPid : t'.nextPid = t.nextPid

/-- Collecting a reapable entry gives its slot back. -/
theorem collected_collect {t : Table} (hused : (t.pcbs i).used = true)
    (hreap : waitpidReapable (t.pcbs i).state = true) : Collected t i (collect i t).2.2 :=
  ⟨hused, hreap, rfl, rfl, rfl⟩

/-- Waiting for a child collects one entry or changes nothing. -/
theorem collected_pcbWaitChild (parentPid : Int) (t : Table) :
    apply t (.waitChild parentPid) = t ∨ ∃ i, Collected t i (apply t (.waitChild parentPid)) := by
  unfold apply pcbWaitChild
  dsimp only
  split
  · next i hfind =>
    have hi := List.find?_some hfind
    rw [Bool.and_eq_true, Bool.and_eq_true] at hi
    exact Or.inr ⟨i, collected_collect hi.1.1 hi.2⟩
  · exact Or.inl rfl

/-- Reaping a child collects one entry or changes nothing. -/
theorem collected_pcbReapChild (parentPid childPid : Int) (t : Table) :
    apply t (.reapChild parentPid childPid) = t ∨
      ∃ i, Collected t i (apply t (.reapChild parentPid childPid)) := by
  unfold apply pcbReapChild
  dsimp only
  split
  · next i hfind =>
    have hi := List.find?_some hfind
    rw [Bool.and_eq_true, Bool.and_eq_true] at hi
    split
    · next hreap => exact Or.inr ⟨i, collected_collect hi.1.1 hreap⟩
    · exact Or.inl rfl
  · exact Or.inl rfl

def Action.creates : Action → Bool
  | .start _ => true
  | .createChild _ => true
  | _ => false

/-- What a call can do: make an entry, keep the slots, or collect an entry. -/
theorem apply_cases (t : Table) (a : Action) :
    (Action.creates a = true ∧ ((∃ i p, Made t i p (apply t a)) ∨
        (∀ j, t.pool.map j = true) ∧ recycled t = none ∧ apply t a = t)) ∨
      (Action.creates a = false ∧ (SameSlots t (apply t a) ∨ ∃ i, Collected t i (apply t a))) := by
  cases a with
  | start path =>
    refine Or.inl ⟨rfl, ?_⟩
    rcases made_pcbProcessStart path t with ⟨i, h⟩ | h
    · exact Or.inl ⟨i, _, h⟩
    · exact Or.inr h
  | createChild parentPid =>
    refine Or.inl ⟨rfl, ?_⟩
    rcases made_pcbCreateChild parentPid t with ⟨i, h⟩ | h
    · exact Or.inl ⟨i, _, h⟩
    · exact Or.inr h
  | exit pid exitCode => exact Or.inr ⟨rfl, Or.inl (sameSlots_pcbFinishProcess pid _ exitCode t)⟩
  | abort pid exitCode => exact Or.inr ⟨rfl, Or.inl (sameSlots_pcbFinishProcess pid _ exitCode t)⟩
  | fault pid exitCode => exact Or.inr ⟨rfl, Or.inl (sameSlots_pcbFinishProcess pid _ exitCode t)⟩
  | stop pid => exact Or.inr ⟨rfl, Or.inl (sameSlots_pcbFinishProcess pid _ (-1) t)⟩
  | setState pid state => exact Or.inr ⟨rfl, Or.inl (sameSlots_pcbSetState pid state t)⟩
  | setCurrent pid => exact Or.inr ⟨rfl, Or.inl ⟨fun _ => rfl, fun _ => rfl, fun _ => rfl, rfl, rfl⟩⟩
  | waitChild parentPid =>
    refine Or.inr ⟨rfl, ?_⟩
    rcases collected_pcbWaitChild parentPid t with h | h
    · exact Or.inl (by rw [h]; exact .refl t)
    · exact Or.inr h
  | reapChild parentPid childPid =>
    refine Or.inr ⟨rfl, ?_⟩
    rcases collected_pcbReapChild parentPid childPid t with h | h
    · exact Or.inl (by rw [h]; exact .refl t)
    · exact Or.inr h

/-- An entry is in use exactly when its slot has been handed out, and the counter of the pool counts
these slots. -/
structure SlotsAgree (t : Table) : Prop where
  used : ∀ i, (t.pcbs i).used = t.pool.map i
  count : t.pool.used = popcount t.pool.map

/-- A new entry keeps the pool in step with the table. -/
theorem SlotsAgree.made (h : SlotsAgree t) (hmade : Made t i p t') :
    SlotsAgree t' := by
  constructor
  · intro j
    rw [hmade.pcbs, hmade.map]
    by_cases hj : j = i
    · rw [hj, Function.update_self, Function.update_self, hmade.used]
    · rw [Function.update_of_ne hj, Function.update_of_ne hj, h.used]
  · rw [hmade.count, hmade.map]
    cases hi : t.pool.map i with
    | false => rw [popcount_set hi, ← h.count, if_neg Bool.false_ne_true]
    | true =>
      have hpos := popcount_pos hi
      unfold poolFreeSlot
      rw [if_pos rfl, if_pos hi, ← hi, Function.update_eq_self, ← h.count] at *
      dsimp only
      rw [if_pos hpos]
      omega

/-- A collected entry keeps the pool in step with the table. -/
theorem SlotsAgree.collected (h : SlotsAgree t) (hcoll : Collected t i t') : SlotsAgree t' := by
  have hi : t.pool.map i = true := by rw [← h.used, hcoll.used]
  have hpool : t'.pool = ⟨Function.update t.pool.map i false, t.pool.used - 1⟩ := by
    have hpos : t.pool.used > 0 := by
      rw [h.count]
      exact popcount_pos hi
    rw [hcoll.pool]
    unfold poolFreeSlot
    rw [if_pos hi, if_pos hpos]
  constructor
  · intro j
    rw [hcoll.pcbs, hpool]
    dsimp only
    by_cases hj : j = i
    · rw [hj, Function.update_self, Function.update_self]
    · rw [Function.update_of_ne hj, Function.update_of_ne hj, h.used]
  · rw [hpool, h.count, ← popcount_clear hi, Nat.add_sub_cancel]

/-- Every call keeps the pool in step with the table. -/
theorem slotsAgree_step (t : Table) (a : Action) (t' : Table) (h : SlotsAgree t)
    (hstep : step t a = some t') :
    SlotsAgree t' := by
  rw [← Option.some.inj hstep]
  rcases apply_cases t a with ⟨-, ⟨i, p, hmade⟩ | ⟨-, -, heq⟩⟩ | ⟨-, hsame | ⟨i, hcoll⟩⟩
  · exact h.made hmade
  · rw [heq]
    exact h
  · refine ⟨fun i => ?_, ?_⟩
    · rw [hsame.used, hsame.pool, h.used]
    · rw [hsame.pool, h.count]
  · exact h.collected hcoll

/-- The empty pool agrees with the empty table. -/
theorem slotsAgree_pcbInit : SlotsAgree pcbInit := ⟨fun _ => rfl, popcount_zero.symm⟩

def DistinctPids (t : Table) : Prop :=
  ∀ i j, (t.pcbs i).used = true → (t.pcbs j).used = true → (t.pcbs i).pid = (t.pcbs j).pid → i = j

structure PidsBelow (t : Table) (n : Nat) : Prop where
  next : t.nextPid ≤ n + 1
  below : ∀ i, (t.pcbs i).used = true → (t.pcbs i).pid < t.nextPid
  distinct : DistinctPids t

/-- No pid has been given out at the start. -/
theorem pidsBelow_pcbInit : PidsBelow pcbInit 0 :=
  ⟨le_rfl, fun _ hi => absurd hi Bool.false_ne_true, fun _ _ hi => absurd hi Bool.false_ne_true⟩

/-- A new entry takes one pid more. -/
theorem PidsBelow.made (h : PidsBelow t n) (hn : n + 2 < 2 ^ 32)
    (hmade : Made t i p t') : PidsBelow t' (n + 1) := by
  have hnext : t'.nextPid = t.nextPid + 1 := by
    have := h.next
    rw [hmade.nextPid, Nat.mod_eq_of_lt (by omega)]
  have hother {j : Fin 64} (hj : j ≠ i) : t'.pcbs j = t.pcbs j := by
    rw [hmade.pcbs, Function.update_of_ne hj]
  have hself : (t'.pcbs i).pid = t.nextPid := by rw [hmade.pcbs, Function.update_self, hmade.pid]
  refine ⟨?_, fun j hj => ?_, fun j k hj hk hjk => ?_⟩
  · rw [hnext]
    exact Nat.succ_le_succ h.next
  · rw [hnext]
    by_cases hji : j = i
    · rw [hji, hself]
      exact Nat.lt_succ_self _
    · rw [hother hji] at hj ⊢
      exact (h.below j hj).trans (Nat.lt_succ_self _)
  · by_cases hji : j = i
    · by_cases hki : k = i
      · rw [hji, hki]
      · rw [hother hki] at hk hjk
        rw [hji, hself] at hjk
        exact absurd (h.below k hk) (by omega)
    · by_cases hki : k = i
      · rw [hother hji] at hj hjk
        rw [hki, hself] at hjk
        exact absurd (h.below j hj) (by omega)
      · rw [hother hji] at hj hjk
        rw [hother hki] at hk hjk
        exact h.distinct j k hj hk hjk

/-- A collected entry takes no pid. -/
theorem PidsBelow.collected (h : PidsBelow t n) (hcoll : Collected t i t') :
    PidsBelow t' n := by
  have hentry {j : Fin 64} (hj : (t'.pcbs j).used = true) : t'.pcbs j = t.pcbs j := by
    have hji : j ≠ i := by
      rintro rfl
      rw [hcoll.pcbs, Function.update_self] at hj
      exact absurd hj Bool.false_ne_true
    rw [hcoll.pcbs, Function.update_of_ne hji]
  refine ⟨?_, fun j hj => ?_, fun j k hj hk hjk => ?_⟩
  · rw [hcoll.nextPid]
    exact h.next
  · have hsame := hentry hj
    rw [hcoll.nextPid, hsame]
    rw [hsame] at hj
    exact h.below j hj
  · have hsamej := hentry hj
    have hsamek := hentry hk
    rw [hsamej] at hj hjk
    rw [hsamek] at hk hjk
    exact h.distinct j k hj hk hjk

/-- What keeps the slots keeps the bound on the pids. -/
theorem PidsBelow.sameSlots (h : PidsBelow t n) (hsame : SameSlots t t') : PidsBelow t' n := by
  refine ⟨?_, fun j hj => ?_, fun j k hj hk hjk => ?_⟩
  · rw [hsame.nextPid]
    exact h.next
  · rw [hsame.used] at hj
    rw [hsame.pid, hsame.nextPid]
    exact h.below j hj
  · rw [hsame.used] at hj hk
    rw [hsame.pid, hsame.pid] at hjk
    exact h.distinct j k hj hk hjk

/-- A bound on the pids may be raised. -/
theorem PidsBelow.mono {t : Table} {n m : Nat} (h : PidsBelow t n) (hnm : n ≤ m) : PidsBelow t m :=
  ⟨h.next.trans (Nat.succ_le_succ hnm), h.below, h.distinct⟩

def creations (as : List Action) : Nat := as.countP Action.creates

/-- In a run the pids stay below the number of creations, while that fits into 32 bits. -/
theorem PidsBelow.run {as : List Action} (h : Run step t as t') (ht : PidsBelow t n)
    (hn : n + creations as + 1 < 2 ^ 32) : PidsBelow t' (n + creations as) := by
  unfold creations at *
  induction h generalizing n with
  | nil => exact ht
  | @cons t u t' a as hstep rest ih =>
    rw [List.countP_cons] at hn ⊢
    rw [← Option.some.inj hstep] at ih
    rcases apply_cases t a with ⟨ha, hmade⟩ | ⟨ha, hkeep⟩
    · rw [ha, if_pos rfl] at hn ⊢
      have hnext : PidsBelow (apply t a) (n + 1) := by
        rcases hmade with ⟨i, p, hmade⟩ | ⟨-, -, heq⟩
        · exact ht.made (by omega) hmade
        · rw [heq]
          exact ht.mono (Nat.le_succ n)
      have := ih hnext (by omega)
      rwa [Nat.add_right_comm n 1] at this
    · rw [ha, if_neg Bool.false_ne_true] at hn ⊢
      apply ih _ hn
      rcases hkeep with hsame | ⟨i, hcoll⟩
      · exact ht.sameSlots hsame
      · exact ht.collected hcoll

def Live (p : Pcb) : Prop :=
  p.used = true ∧ (p.state = .ready ∨ p.state = .running ∨ p.state = .waiting ∨ p.state = .stopped ∨ p.state = .zombie)

def KeepsLive (t t' : Table) : Prop := ∀ i, Live (t.pcbs i) → t'.pcbs i = t.pcbs i

/-- There is a slot to spare: one that has not been handed out, or else the first process that is
not running, if there is one, is not live. -/
def SlotToSpare (t : Table) : Prop :=
  (∃ i, t.pool.map i = false) ∨ ∀ i, recycled t = some i → ¬ Live (t.pcbs i)

/-- With a slot to spare a new entry overwrites no live one. -/
theorem keepsLive_made (hagree : SlotsAgree t) (hspare : SlotToSpare t)
    (hmade : Made t i p t') : KeepsLive t t' := by
  have hdead : ¬ Live (t.pcbs i) := by
    rcases hmade.slot with hfree | ⟨hfull, hrec⟩
    · intro hlive
      have := hagree.used i
      rw [hlive.1, hfree] at this
      exact absurd this.symm Bool.false_ne_true
    · rcases hspare with ⟨j, hj⟩ | hspare
      · rw [hfull j] at hj
        exact absurd hj.symm Bool.false_ne_true
      · exact hspare i hrec
  intro j hj
  have hji : j ≠ i := by
    rintro rfl
    exact hdead hj
  rw [hmade.pcbs, Function.update_of_ne hji]

/-- A new entry that overwrites no live one had a slot to spare. -/
theorem slotToSpare_of_keepsLive (hpids : PidsBelow t n)
    (hmade : Made t i p t') (hkeeps : KeepsLive t t') : SlotToSpare t := by
  rcases hmade.slot with hfree | ⟨-, hrec⟩
  · exact Or.inl ⟨i, hfree⟩
  · refine Or.inr fun j hj hlive => ?_
    rw [hrec, Option.some.injEq] at hj
    subst hj
    have hpid : (t'.pcbs i).pid = t.nextPid := by rw [hmade.pcbs, Function.update_self, hmade.pid]
    rw [hkeeps i hlive] at hpid
    exact absurd (hpids.below i hlive.1) (by omega)

/-- In every state that the calls lead to, the entries and the pool agree, the pids are distinct
until the counter of pids wraps, and a call that makes a process loses no live process when there is
a slot to spare, and only then. -/
theorem processTable_run (as : List Action) (t : Table) (h : Run step pcbInit as t) :
    SlotsAgree t ∧ (creations as + 1 < 2 ^ 32 → DistinctPids t) ∧ ∀ a, Action.creates a = true →
        (SlotToSpare t → KeepsLive t (apply t a)) ∧
        (creations as + 1 < 2 ^ 32 → KeepsLive t (apply t a) → SlotToSpare t) := by
  have hagree : SlotsAgree t := h.invariant slotsAgree_step slotsAgree_pcbInit
  have hpids (hn : creations as + 1 < 2 ^ 32) : PidsBelow t (creations as) := by
    have := pidsBelow_pcbInit.run h (by omega)
    rwa [Nat.zero_add] at this
  refine ⟨hagree, fun hn => (hpids hn).distinct, fun a ha => ?_⟩
  rcases apply_cases t a with ⟨-, ⟨i, p, hmade⟩ | ⟨-, hrec, heq⟩⟩ | ⟨hna, -⟩
  · exact ⟨fun hspare => keepsLive_made hagree hspare hmade,
      fun hn hkeeps => slotToSpare_of_keepsLive (hpids hn) hmade hkeeps⟩
  · refine ⟨fun _ => ?_, fun _ _ => Or.inr fun i hi => ?_⟩
    · rw [heq]
      exact fun _ _ => rfl
    · rw [hrec] at hi
      cases hi
  · rw [hna] at ha
    exact absurd ha Bool.false_ne_true

theorem processTable_run_start : SlotsAgree (apply pcbInit (.start none)) ∧
      KeepsLive (apply pcbInit (.start none))
        (apply (apply pcbInit (.start none)) (.createChild 1)) :=
  have h := processTable_run [.start none] _ (.cons rfl (.nil _))
  ⟨h.1, (h.2.2 (.createChild 1) rfl).1 (Or.inl ⟨1, rfl⟩)⟩

def family (n : Nat) : List Action := .start none :: List.replicate n (.createChild 1)

/-- A run of the table is a fold over its calls. -/
theorem run_foldl (t : Table) (as : List Action) : Run step t as (as.foldl apply t) := by
  induction as generalizing t with
  | nil => exact .nil t
  | cons a as ih => exact .cons rfl (ih (apply t a))

/-- One child more. -/
theorem family_succ (n : Nat) : (family (n + 1)).foldl apply pcbInit =
    apply ((family n).foldl apply pcbInit) (.createChild 1) := by
  unfold family
  rw [List.replicate_succ', ← List.cons_append, List.foldl_append]
  rfl

structure FamilyOf (t : Table) (n : Nat) : Prop where
  agree : SlotsAgree t
  count : t.pool.used = n + 1
  states : ∀ i, (t.pcbs i).used = true → (t.pcbs i).state = .running ∨ (t.pcbs i).state = .ready
  child : 0 < n → ∃ i, (t.pcbs i).used = true ∧ (t.pcbs i).state = .ready

/-- A child is ready from the start. -/
theorem childPcb_state (t : Table) (i : Fin 64) (parentPid : Int) :
    (childPcb t i parentPid).state = .ready := by
  unfold childPcb inherit
  dsimp only
  split
  · rfl
  · rfl

/-- A family below 64 leaves a slot free. -/
theorem not_full {t : Table} (h : FamilyOf t n) (hn : n < 63) : ¬ ∀ i, t.pool.map i = true := by
  intro hfull
  have hall : popcount t.pool.map = 64 := by
    unfold popcount
    rw [Finset.filter_true_of_mem fun i _ => hfull i]
    rfl
  have := h.agree.count
  rw [h.count, hall] at this
  omega

/-- A family grows by one child. -/
theorem familyOf_succ {t : Table} (h : FamilyOf t n) (hn : n < 63) :
    FamilyOf (apply t (.createChild 1)) (n + 1) := by
  rcases made_pcbCreateChild 1 t with ⟨i, hmade⟩ | ⟨hfull, -, -⟩
  · have hfree : t.pool.map i = false := by
      rcases hmade.slot with hfree | ⟨hfull, -⟩
      · exact hfree
      · exact absurd hfull (not_full h hn)
    have hself : ((apply t (.createChild 1)).pcbs i).state = .ready := by
      unfold apply
      rw [hmade.pcbs, Function.update_self, childPcb_state]
    refine ⟨h.agree.made hmade, ?_, fun j hj => ?_, fun _ => ⟨i, ?_, hself⟩⟩
    · have := hmade.count
      rw [hfree, if_neg Bool.false_ne_true, h.count] at this
      exact this
    · by_cases hji : j = i
      · rw [hji]
        exact Or.inr hself
      · have hother : (apply t (.createChild 1)).pcbs j = t.pcbs j := by
          unfold apply
          rw [hmade.pcbs, Function.update_of_ne hji]
        rw [hother] at hj ⊢
        exact h.states j hj
    · unfold apply
      rw [hmade.pcbs, Function.update_self, hmade.used]
  · exact absurd hfull (not_full h hn)

/-- After `n` children the table holds the family of `n`. -/
theorem familyOf_family (n : Nat) (hn : n ≤ 63) : FamilyOf ((family n).foldl apply pcbInit) n := by
  induction n with
  | zero =>
    rcases made_pcbProcessStart none pcbInit with ⟨i, hmade⟩ | ⟨hfull, -, -⟩
    · refine ⟨slotsAgree_pcbInit.made hmade, hmade.count, fun j hj => Or.inl ?_,
        fun h => absurd h (Nat.lt_irrefl 0)⟩
      change ((apply pcbInit (.start none)).pcbs j).used = true at hj
      change ((apply pcbInit (.start none)).pcbs j).state = .running
      unfold apply at hj ⊢
      rw [hmade.pcbs] at hj ⊢
      by_cases hji : j = i
      · rw [hji, Function.update_self]
        rfl
      · rw [Function.update_of_ne hji] at hj
        exact absurd hj Bool.false_ne_true
    · exact absurd (hfull 0).symm Bool.true_eq_false.mp
  | succ n ih =>
    rw [family_succ]
    exact familyOf_succ (ih (by omega)) (by omega)

theorem not_keepsLive_family : Run step pcbInit (family 63) ((family 63).foldl apply pcbInit) ∧
      ¬ KeepsLive ((family 63).foldl apply pcbInit)
        (apply ((family 63).foldl apply pcbInit) (.createChild 1)) := by
  have hrun := run_foldl pcbInit (family 63)
  refine ⟨hrun, fun hkeeps => ?_⟩
  have hfamily := familyOf_family 63 le_rfl
  generalize (family 63).foldl apply pcbInit = t at hrun hkeeps hfamily
  have hpids : PidsBelow t (0 + creations (family 63)) := pidsBelow_pcbInit.run hrun (by decide)
  have hfull (i : Fin 64) : t.pool.map i = true := popcount_eq_card (by rw [← hfamily.agree.count, hfamily.count]; rfl) i
  obtain ⟨c, hused, hready⟩ := hfamily.child (by omega)
  -- the child is a process that is not running
  have hrec : ∃ i, recycled t = some i := by
    apply Option.isSome_iff_exists.mp
    unfold recycled
    rw [List.find?_isSome]
    exact ⟨c, List.mem_finRange c, by rw [hused, hready]; rfl⟩
  obtain ⟨i, hi⟩ := hrec
  have hlive : Live (t.pcbs i) := by
    have hspec := List.find?_some hi
    rw [Bool.and_eq_true, decide_eq_true_eq] at hspec
    exact ⟨hspec.1, Or.inl ((hfamily.states i hspec.1).resolve_left hspec.2)⟩
  rcases made_pcbCreateChild 1 t with ⟨j, hmade⟩ | ⟨-, hnone, -⟩
  · rcases slotToSpare_of_keepsLive hpids hmade hkeeps with ⟨k, hk⟩ | hspare
    · rw [hfull k] at hk
      exact absurd hk.symm Bool.false_ne_true
    · exact hspare i hi hlive
  · rw [hi] at hnone
    cases hnone

end Monios.Analysis
