import Mathlib.Data.List.Pairwise
import Monios.Library.Run
import Monios.Library.SlotTable
import Monios.Model.Firewall

/-!
# Which rule of the packet filter decides

The rules that are present, in the order in which they were added, are kept beside the table. The
verdict is that of the first match of the table in the order of its slots
(`fwEvaluate_eq_firstVerdict`), and a rule gets the first slot that is free.
-/

set_option autoImplicit false

namespace Monios.Analysis.FirewallOrder

open Monios.Library Monios.Library.SlotTable Monios.Model.Firewall

def ruleMatches (direction : UInt8) (p : Packet) (r : FwRule) : Bool :=
  r.direction == direction && fwRuleApplies r p

def firstVerdict (fw : FwState) (direction : UInt8) (p : Packet) (rules : List FwRule) : Bool :=
  match rules.find? (ruleMatches direction p) with
  | some r => r.action == fwActionAllow
  | none => fw.defaultAllow direction

def slotRule (fw : FwState) (i : Fin 32) : Option FwRule :=
  if (fw.rules i).used then some (fw.rules i) else none

theorem slotRule_any (fw : FwState) (i : Fin 32) (direction : UInt8) (p : Packet) :
    (slotRule fw i).any (ruleMatches direction p) =
      ((fw.rules i).used && (fw.rules i).direction == direction && fwRuleApplies (fw.rules i) p) := by
  unfold slotRule
  cases (fw.rules i).used with
  | false => simp
  | true => simp [ruleMatches]

theorem fwEvaluate_eq_firstVerdict {fw : FwState} (h : fw.enabled = true) (direction : UInt8)
    (p : Packet) :
    fwEvaluate fw direction p =
      firstVerdict fw direction p ((entries (slotRule fw)).map Prod.snd) := by
  unfold fwEvaluate firstVerdict
  rw [if_pos h, find?_entries]
  simp only [slotRule_any]
  cases hfind : (List.finRange 32).find? fun i =>
      (fw.rules i).used && (fw.rules i).direction == direction && fwRuleApplies (fw.rules i) p with
  | none => rfl
  | some i =>
    have hi := List.find?_some hfind
    simp only [Bool.and_eq_true] at hi
    have hslot : slotRule fw i = some (fw.rules i) := if_pos hi.1.1
    rw [Option.bind_some, hslot]

structure Audited where
  fw : FwState := {}
  added : List (Fin 32 × FwRule) := []

def noteRule (fw : FwState) (added : List (Fin 32 × FwRule)) : Op → List (Fin 32 × FwRule)
  | .addRule a =>
    match fw.freeSlot with
    | some i => added ++ [(i, a.rule)]
    | none => added
  | .removeRule id => added.filter fun e => decide ((e.1.val : Int) ≠ id)
  | _ => added

def auditedStep (s : Audited) (op : Op) : Option Audited :=
  some { fw := firewallStep s.fw op, added := noteRule s.fw s.added op }

def Tracks (s : Audited) : Prop := ∀ i r, (i, r) ∈ s.added ↔ slotRule s.fw i = some r

theorem slotRule_congr {fw fw' : FwState} (h : fw'.rules = fw.rules) :
    slotRule fw' = slotRule fw := by
  funext i
  unfold slotRule
  rw [h]

theorem freeSlot_used {fw : FwState} {i : Fin 32} (h : fw.freeSlot = some i) :
    (fw.rules i).used = false := by
  have hfound := List.find?_some h
  simpa using hfound

theorem slotRule_firewallAddRule {fw : FwState} {a : RuleArgs} {i : Fin 32}
    (h : fw.freeSlot = some i) :
    slotRule (firewallAddRule fw a).2 = Function.update (slotRule fw) i (some a.rule) := by
  funext j
  unfold slotRule firewallAddRule
  rw [h]
  by_cases hj : j = i
  · subst hj
    simp [RuleArgs.rule]
  · simp [hj]

theorem firewallRemoveRule_slot (fw : FwState) (i : Fin 32) : firewallRemoveRule fw i.val =
      if (fw.rules i).used then
        (true, { fw with rules := Function.update fw.rules i { fw.rules i with used := false } })
      else (false, fw) := by
  have hrange : 0 ≤ (i.val : Int) ∧ (i.val : Int) < 32 := by omega
  unfold firewallRemoveRule
  rw [dif_pos hrange]
  rfl

theorem slotRule_firewallRemoveRule (fw : FwState) (id : Int) (i : Fin 32) :
    slotRule (firewallRemoveRule fw id).2 i = if (i.val : Int) =
      id then none else slotRule fw i := by
  by_cases hid : 0 ≤ id ∧ id < 32
  · obtain ⟨k, rfl⟩ : ∃ k : Fin 32, id = k.val := ⟨⟨id.toNat, by omega⟩, by simp [hid.1]⟩
    have hiff : (i.val : Int) = (k.val : Int) ↔ i = k := by omega
    simp only [firewallRemoveRule_slot, hiff]
    cases hused : (fw.rules k).used with
    | false =>
      by_cases hi : i = k
      · simp [slotRule, hi, hused]
      · simp [hi]
    | true =>
      by_cases hi : i = k
      · simp [slotRule, hi]
      · simp [slotRule, hi]
  · have hi : (i.val : Int) ≠ id := by omega
    unfold firewallRemoveRule
    rw [dif_neg hid, if_neg hi]

theorem tracks_addRule {s : Audited} (h : Tracks s) (a : RuleArgs) :
    Tracks ⟨firewallStep s.fw (.addRule a), noteRule s.fw s.added (.addRule a)⟩ := by
  intro i r
  cases hfree : s.fw.freeSlot with
  | none =>
    simp only [firewallStep, firewallAddRule, noteRule, hfree]
    exact h i r
  | some j =>
    have hempty : slotRule s.fw j = none := by simp [slotRule, freeSlot_used hfree]
    simp only [firewallStep, noteRule, hfree]
    rw [slotRule_firewallAddRule hfree, List.mem_append, List.mem_singleton, h i r]
    by_cases hij : i = j
    · subst hij
      simp [hempty, eq_comm]
    · simp [hij]

theorem tracks_removeRule {s : Audited} (h : Tracks s) (id : Int) :
    Tracks ⟨firewallStep s.fw (.removeRule id), noteRule s.fw s.added (.removeRule id)⟩ := by
  intro i r
  simp only [firewallStep, noteRule]
  rw [slotRule_firewallRemoveRule, List.mem_filter, h i r]
  by_cases hi : (i.val : Int) = id
  · simp [hi]
  · simp [hi]

theorem Tracks.of_rules {s : Audited} (h : Tracks s) {fw : FwState}
    (hrules : fw.rules = s.fw.rules) :
    Tracks ⟨fw, s.added⟩ := by
  intro i r
  rw [slotRule_congr hrules]
  exact h i r

theorem check_rules (fw : FwState) (p : Packet) :
    (firewallCheckInbound fw p).2.rules = fw.rules ∧
      (firewallCheckOutbound fw p).2.rules = fw.rules := by
  unfold firewallCheckInbound firewallCheckOutbound
  constructor
  · cases fwEvaluate fw fwDirIn p <;> rfl
  · cases fwEvaluate fw fwDirOut p <;> rfl

theorem tracks_step {s s' : Audited} {op : Op} (h : Tracks s)
    (hstep : auditedStep s op = some s') : Tracks s' := by
  cases hstep
  cases op with
  | addRule a => exact tracks_addRule h a
  | removeRule id => exact tracks_removeRule h id
  | setEnabled enabled => exact h.of_rules rfl
  | setDefault inboundAllow outboundAllow => exact h.of_rules rfl
  | checkInbound p => exact h.of_rules (check_rules s.fw p).1
  | checkOutbound p => exact h.of_rules (check_rules s.fw p).2

theorem tracks_of_run {ops : List Op} {s : Audited} (h : Run auditedStep {} ops s) : Tracks s := by
  apply h.invariant fun _ _ _ => tracks_step
  intro i r
  simp [slotRule]

def AddsBehind (s : Audited) : Op → Prop
  | .addRule _ => ∀ i, s.fw.freeSlot = some i → ∀ j, (s.fw.rules j).used = true → j < i
  | _ => True

theorem increasing_step {s s' : Audited} {op : Op} (hc : AddsBehind s op)
    (h : Tracks s ∧ Increasing s.added) (hstep : auditedStep s op = some s') :
    Tracks s' ∧ Increasing s'.added := by
  refine ⟨tracks_step h.1 hstep, ?_⟩
  cases hstep
  cases op with
  | addRule a =>
    simp only [noteRule]
    cases hfree : s.fw.freeSlot with
    | none => exact h.2
    | some i =>
      apply List.pairwise_append.mpr
      refine ⟨h.2, List.pairwise_singleton _ _, ?_⟩
      rintro ⟨j, r⟩ hj e he
      rw [List.mem_singleton.mp he]
      have hslot := (h.1 j r).mp hj
      unfold slotRule at hslot
      by_cases hused : (s.fw.rules j).used = true
      · exact hc i hfree j hused
      · rw [if_neg hused] at hslot
        exact absurd hslot (Option.some_ne_none r).symm
  | removeRule id => exact h.2.filter _
  | setEnabled enabled => exact h.2
  | setDefault inboundAllow outboundAllow => exact h.2
  | checkInbound p => exact h.2
  | checkOutbound p => exact h.2

theorem increasing_of_run {ops : List Op} {s : Audited}
    (h : RunWhile auditedStep AddsBehind {} ops s) :
    Increasing s.added := by
  have hstart : Tracks {} ∧ Increasing (n := 32) (α := FwRule) [] := by
    refine ⟨fun i r => ?_, List.Pairwise.nil⟩
    simp [slotRule]
  exact (h.invariant (I := fun s => Tracks s ∧ Increasing s.added) (fun _ _ _ => increasing_step) hstart).2

/-- A filter that is off lets everything pass.  One that is on gives the action of the earliest of
the present rules that match, if the slots of these increase in the order of the additions; which
they do if no addition takes a slot in front of a slot in use. -/
theorem fwEvaluate_of_run {ops : List Op} {s : Audited} (h : Run auditedStep {} ops s)
    (direction : UInt8) (p : Packet) :
    (s.fw.enabled = false → fwEvaluate s.fw direction p = true) ∧
      (s.fw.enabled = true → Increasing s.added →
        fwEvaluate s.fw direction p = firstVerdict s.fw direction p (s.added.map Prod.snd)) ∧
      (RunWhile auditedStep AddsBehind {} ops s → Increasing s.added) := by
  refine ⟨fun hoff => by simp [fwEvaluate, hoff], fun hon hinc => ?_, increasing_of_run⟩
  have hadded : s.added = entries (slotRule s.fw) := eq_entries hinc (tracks_of_run h)
  rw [fwEvaluate_eq_firstVerdict hon, hadded]

def anyInbound (action : UInt8) : RuleArgs where
  direction := fwDirIn
  action := action
  protocol := fwProtoAny

def recycling : List Op :=
  [.setEnabled true, .addRule (anyInbound fwActionDeny), .addRule (anyInbound fwActionDeny), .removeRule 0,
    .addRule (anyInbound fwActionAllow)]

def somePacket : Packet where
  protocol := 6
  srcIp := fun _ => 10
  dstIp := fun _ => 10
  srcPort := 1024
  dstPort := 80

theorem recycled_slot_decides : ∃ ops s, Run auditedStep {} ops s ∧ s.fw.enabled = true ∧ ∃ p,
      fwEvaluate s.fw fwDirIn p ≠ firstVerdict s.fw fwDirIn p (s.added.map Prod.snd) := by
  obtain ⟨s, hs⟩ : ∃ s, recycling.foldlM auditedStep {} = some s := ⟨_, rfl⟩
  refine ⟨recycling, s, Run.of_foldlM hs, ?_⟩
  cases hs
  refine ⟨rfl, somePacket, ?_⟩
  decide +kernel

def appending : List Op := [.setEnabled true, .addRule (anyInbound fwActionDeny), .addRule (anyInbound fwActionAllow)]

theorem fwEvaluate_of_appending :
    ∃ s, Run auditedStep {} appending s ∧ s.fw.enabled = true ∧ s.added.length = 2 ∧
      fwEvaluate s.fw fwDirIn somePacket =
      firstVerdict s.fw fwDirIn somePacket (s.added.map Prod.snd) := by
  obtain ⟨s, hs⟩ : ∃ s, appending.foldlM auditedStep {} = some s := ⟨_, rfl⟩
  have hrun : Run auditedStep {} appending s := Run.of_foldlM hs
  have hverdict := (fwEvaluate_of_run hrun fwDirIn somePacket).2.1
  refine ⟨s, hrun, ?_⟩
  cases hs
  refine ⟨rfl, rfl, hverdict rfl ?_⟩
  decide +kernel

end Monios.Analysis.FirewallOrder
