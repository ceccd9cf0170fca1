import Monios.Library.Run
import Monios.Analysis.DnsAnswers

/-!
# What the cache of the resolver answers

`Latest` is the history of the insertions: for each name the last one. An answer is fresh when it is
the address of the last insertion of the name, made with a lifetime and not yet expired.
-/

set_option autoImplicit false

namespace Monios.Analysis.DnsFreshness

open Monios.Library Monios.Model.Dns

structure Insertion where
  ip : List UInt8
  ttl : Nat
  expiry : Nat
  deriving DecidableEq

structure Observed where
  timed : TimedCache := {}
  latest : List UInt8 → Option Insertion := fun _ => none

def noteInsertion (ticks : Nat) (latest : List UInt8 → Option Insertion) :
    CacheAction → List UInt8 → Option Insertion
  | .insert name ip ttl hz => Function.update latest (dnsStrLower name)
    (some ⟨ip, ttl, dnsCacheExpiry ttl ticks hz⟩)
  | .tick _ => latest

def observedStep (s : Observed) (a : CacheAction) : Option Observed :=
  (cacheStep s.timed a).map fun t => ⟨t, noteInsertion s.timed.ticks s.latest a⟩

def Fresh (s : Observed) : Prop :=
  ∀ name ip, dnsCacheLookup name s.timed.ticks s.timed.cache = some ip →
    ∃ insertion, s.latest (dnsStrLower name) = some insertion ∧ ip = insertion.ip ∧ 0 < insertion.ttl ∧
      s.timed.ticks < insertion.expiry

structure Live (ticks : Nat) (e : CacheEntry) : Prop where
  valid : e.valid = true
  unexpired : ticks < e.expiry

/-- An insertion that does not reach the defect: a live slot is not reused without a lifetime, and
another live slot of the name has the same address and does not outlive the insertion. -/
def Safe (s : TimedCache) : CacheAction → Prop
  | .insert name ip ttl hz =>
    (ttl = 0 → ¬ Live s.ticks (s.cache.entries s.cache.next)) ∧
      ∀ i, i ≠ s.cache.next → Live s.ticks (s.cache.entries i) → (s.cache.entries i).name = dnsStrLower name →
        0 < ttl ∧ (s.cache.entries i).ip = ip ∧ (s.cache.entries i).expiry ≤ dnsCacheExpiry ttl s.ticks hz
  | .tick _ => True

def Covered (latest : List UInt8 → Option Insertion) (e : CacheEntry) : Prop :=
  ∃ insertion, latest e.name = some insertion ∧ e.ip = insertion.ip ∧ 0 < insertion.ttl ∧ e.expiry ≤ insertion.expiry

def AllCovered (s : Observed) : Prop :=
  ∀ i, Live s.timed.ticks (s.timed.cache.entries i) → Covered s.latest (s.timed.cache.entries i)

/-- A hit is a live entry of the name. -/
theorem dnsCacheLookup_some {name ip : List UInt8} {ticks : Nat} {c : Cache}
    (h : dnsCacheLookup name ticks c = some ip) :
    ∃ i, Live ticks (c.entries i) ∧ (c.entries i).name = dnsStrLower name ∧
      ip = (c.entries i).ip := by
  obtain ⟨i, hi, rfl⟩ := Option.map_eq_some_iff.mp h
  have hfound := List.find?_some hi
  simp only [Bool.and_eq_true, decide_eq_true_eq] at hfound
  exact ⟨i, ⟨hfound.1.1, hfound.1.2⟩, hfound.2, rfl⟩

/-- Covered entries are fresh. -/
theorem AllCovered.fresh {s : Observed} (h : AllCovered s) : Fresh s := by
  intro name ip hip
  obtain ⟨i, hlive, hname, rfl⟩ := dnsCacheLookup_some hip
  obtain ⟨insertion, hlatest, hsame, httl, hexpiry⟩ := h i hlive
  refine ⟨insertion, ?_, hsame, httl, Nat.lt_of_lt_of_le hlive.unexpired hexpiry⟩
  rw [← hname]
  exact hlatest

/-- An entry that is written is covered by its insertion. -/
theorem covered_insert {name ip : List UInt8} {ttl ticks hz : Nat} {e : CacheEntry}
    (hdead : ttl = 0 → ¬ Live ticks e) (latest : List UInt8 → Option Insertion)
    (hlive : Live ticks (dnsCacheEntry name ip ttl ticks hz e)) :
    Covered (noteInsertion ticks latest (.insert name ip ttl hz))
      (dnsCacheEntry name ip ttl ticks hz e) := by
  by_cases httl : ttl = 0
  · simp only [dnsCacheEntry, if_pos httl] at hlive
    exact absurd ⟨hlive.valid, hlive.unexpired⟩ (hdead httl)
  · refine ⟨⟨ip, ttl, dnsCacheExpiry ttl ticks hz⟩, ?_, ?_, Nat.pos_of_ne_zero httl, ?_⟩
    · simp [dnsCacheEntry, httl, noteInsertion]
    · simp [dnsCacheEntry, httl]
    · simp [dnsCacheEntry, httl]

/-- An insertion keeps the other entries covered. -/
theorem Covered.noteInsertion {name ip : List UInt8} {ttl ticks hz : Nat} {e : CacheEntry}
    {latest : List UInt8 → Option Insertion} (h : Covered latest e)
    (hsafe : e.name = dnsStrLower name → 0 < ttl ∧ e.ip = ip ∧
      e.expiry ≤ dnsCacheExpiry ttl ticks hz) :
    Covered (noteInsertion ticks latest (.insert name ip ttl hz)) e := by
  by_cases hname : e.name = dnsStrLower name
  · obtain ⟨httl, hip, hexpiry⟩ := hsafe hname
    exact ⟨⟨ip, ttl, dnsCacheExpiry ttl ticks hz⟩, by simp [DnsFreshness.noteInsertion, hname],
      hip, httl, hexpiry⟩
  · obtain ⟨insertion, hlatest, hrest⟩ := h
    refine ⟨insertion, ?_, hrest⟩
    simpa [DnsFreshness.noteInsertion, hname] using hlatest

/-- An observed step is a step of the cache. -/
theorem observedStep_some {s s' : Observed} {a : CacheAction} (h : observedStep s a = some s') :
    cacheStep s.timed a = some s'.timed ∧ s'.latest = noteInsertion s.timed.ticks s.latest a := by
  obtain ⟨t, ht, rfl⟩ := Option.map_eq_some_iff.mp h
  exact ⟨ht, rfl⟩

/-- Every step within its condition keeps the entries covered. -/
theorem AllCovered.step {s s' : Observed} {a : CacheAction} (hsafe : Safe s.timed a)
    (h : AllCovered s) (hstep : observedStep s a = some s') : AllCovered s' := by
  obtain ⟨htimed, hlatest⟩ := observedStep_some hstep
  cases a with
  | insert name ip ttl hz =>
    intro i hlive
    rw [hlatest]
    rw [← Option.some.inj htimed] at hlive ⊢
    by_cases hi : i = s.timed.cache.next
    · simp only [hi, dnsCacheInsert, Function.update_self] at hlive ⊢
      exact covered_insert hsafe.1 s.latest hlive
    · simp only [dnsCacheInsert, Function.update_of_ne hi] at hlive ⊢
      exact (h i hlive).noteInsertion (hsafe.2 i hi hlive)
  | tick ticks =>
    obtain ⟨hclock, hsome⟩ := Option.ite_none_right_eq_some.mp htimed
    intro i hlive
    rw [hlatest]
    rw [← Option.some.inj hsome] at hlive ⊢
    exact h i ⟨hlive.valid, Nat.lt_of_le_of_lt hclock.1 hlive.unexpired⟩

theorem dnsCache_fresh (as : List CacheAction) (t : Observed)
    (h : RunWhile observedStep (fun s a => Safe s.timed a) {} as t) : Fresh t := by
  apply AllCovered.fresh
  apply h.invariant fun s a s' hsafe hs hstep => AllCovered.step hsafe hs hstep
  intro i hlive
  exact absurd hlive.valid Bool.false_ne_true

def localAddress (i : Nat) : List UInt8 := [10, 0, 0, UInt8.ofNat i]

def oneName : List CacheAction := [.insert [0x41] (localAddress 1) 60 100, .tick 5]

def afterOneName : Observed where
  timed := ⟨dnsCacheInsert [0x41] (localAddress 1) 60 0 100 {}, 5⟩
  latest := Function.update (fun _ => none) [0x61] (some ⟨localAddress 1, 60, dnsCacheExpiry 60 0 100⟩)

theorem dnsCache_fresh_oneName : Fresh afterOneName ∧
    dnsCacheLookup [0x61] 5 afterOneName.timed.cache = some (localAddress 1) := by
  refine ⟨dnsCache_fresh oneName afterOneName (.cons ?_ rfl (.cons trivial rfl (.nil _))),
    by decide⟩
  refine ⟨fun httl => absurd httl (by decide), fun i _ hlive => ?_⟩
  exact absurd hlive.valid Bool.false_ne_true

def seventeenNames : List CacheAction :=
  (List.range 16).map (fun i => .insert [0x61 + UInt8.ofNat i] (localAddress i) 60 100) ++
    [.insert [0x71] (localAddress 16) 0 100]

theorem not_dnsCache_fresh : ¬ ∀ (as : List CacheAction) (t : Observed), Run observedStep {} as t → Fresh t := by
  intro h
  have hrun : (seventeenNames.foldlM observedStep {}).map (fun t =>
      (dnsCacheLookup [0x71] t.timed.ticks t.timed.cache, t.latest [0x71])) =
        some (some (localAddress 16), some ⟨localAddress 16, 0, 0⟩) := by decide
  obtain ⟨t, ht, hanswer⟩ := Option.map_eq_some_iff.mp hrun
  obtain ⟨hhit, hlatest⟩ := Prod.mk.inj hanswer
  obtain ⟨insertion, hsome, -, httl, -⟩ := h _ t (Run.of_foldlM ht) [0x71] _ hhit
  have hlower : dnsStrLower [0x71] = [0x71] := by decide
  rw [hlower, hlatest] at hsome
  rw [← Option.some.inj hsome] at httl
  exact Nat.lt_irrefl 0 httl

end Monios.Analysis.DnsFreshness

/-!
# The name codec of the resolver

`dns_encode_name` writes `nameWire`: each label behind its length, and a zero. `dns_decode_name`
reads a valid name back from there in small letters, wherever it stands (`dnsDecodeFrom_nameWire`).
-/

namespace Monios.Analysis.DnsNames

open Monios.Model.Dns Monios.Analysis.DnsAnswers

section

variable {d : List UInt8} {outMax : Nat}

/-- A character is stored where there is room. -/
theorem dnsStore_eq {out : List UInt8} (h : out.length < outMax) (ch : UInt8) :
    dnsStore outMax out ch = some (out ++ [ch]) :=
  if_pos h

/-- A label is stored where there is room. -/
theorem dnsStoreLabel_eq {n cursor : Nat} {out : List UInt8} (h : out.length + n ≤ outMax) :
    dnsStoreLabel d outMax n cursor out = dnsCopyLabel d n cursor out := by
  induction n generalizing cursor out with
  | zero => rfl
  | succ n ih =>
    rw [dnsStoreLabel, dnsCopyLabel]
    refine Option.bind_congr fun b _ => ?_
    apply ite_congr rfl (fun _ => rfl)
    intro _
    rw [dnsStore_eq (by omega)]
    exact ih (by rw [List.length_append, List.length_singleton]; omega)

/-- A label adds its length. -/
theorem dnsCopyLabel_length {n cursor : Nat} {out out' : List UInt8}
    (h : dnsCopyLabel d n cursor out = some (some out')) :
    out'.length = out.length + n := by
  induction n generalizing cursor out with
  | zero =>
    rw [dnsCopyLabel] at h
    rw [Option.some.inj (Option.some.inj h), Nat.add_zero]
  | succ n ih =>
    rw [dnsCopyLabel] at h
    obtain ⟨b, -, h⟩ := Option.bind_eq_some_iff.mp h
    split at h
    · cases h
    · rw [ih h, List.length_append, List.length_singleton]
      omega

/-- With room for a character the bounded decoder decodes. -/
theorem dnsDecodeInto_eq {rounds cursor hops : Nat} {out : List UInt8} (behind : Option Nat)
    (h : out.length < outMax) :
    dnsDecodeInto d outMax rounds cursor out hops behind =
      dnsDecodeFrom d outMax rounds cursor out hops behind := by
  induction rounds generalizing cursor out hops behind with
  | zero => rfl
  | succ rounds ih =>
    rw [dnsDecodeInto, dnsDecodeFrom]
    apply ite_congr rfl _ (fun _ => rfl)
    intro _
    refine Option.bind_congr fun len _ => ?_
    apply ite_congr rfl
    · intro _
      rw [dnsStore_eq h]
      rfl
    intro _
    apply ite_congr rfl
    · intro _
      apply ite_congr rfl (fun _ => rfl)
      intro _
      refine Option.bind_congr fun low _ => ?_
      apply ite_congr rfl (fun _ => rfl)
      intro _
      exact ih _ h
    intro _
    apply ite_congr rfl (fun _ => rfl)
    intro _
    apply ite_congr rfl (fun _ => rfl)
    intro hroom
    have hdot : dnsStoreDot outMax out = some (if out.length > 0 then out ++ [0x2E] else out) := by
      unfold dnsStoreDot
      split
      · exact dnsStore_eq h _
      · rfl
    have hlength : (if out.length > 0 then out ++ [0x2E] else out).length =
        out.length + (if out.length > 0 then 1 else 0) := by
      split <;> simp
    rw [hdot]
    simp only [Option.bind_eq_bind, Option.bind_some]
    rw [dnsStoreLabel_eq (by omega)]
    refine Option.bind_congr fun copied hcopied => ?_
    cases copied with
    | none => rfl
    | some out' =>
      have hout := dnsCopyLabel_length hcopied
      exact ih behind (by omega)

/-- With room for a character the bounded decoder is the decoder. -/
theorem dnsDecodeNameInto_eq (pos : Nat) (h : 0 < outMax) :
    dnsDecodeNameInto d pos outMax =
      dnsDecodeFrom d outMax (17 * (d.length + 1)) pos [] 0 none := by
  rw [dnsDecodeNameInto, dnsStore_eq h]
  exact dnsDecodeInto_eq none h

/-- The decoder ends, and reads nothing outside. -/
theorem dnsDecodeNameInto_ne_none (d : List UInt8) (pos : Nat) (h : 0 < outMax) :
    dnsDecodeNameInto d pos outMax ≠ none := by
  rw [dnsDecodeNameInto_eq pos h]
  have hspec := @dnsDecodeFrom_spec d outMax (17 * (d.length + 1)) pos 0 [] none (by omega)
    (fun _ hnone => by cases hnone) (by unfold roundsLeft; omega)
  rcases hspec with hbad | ⟨labels, next, -, -, hgood⟩
  · rw [hbad]
    simp
  · rw [hgood]
    simp

end

def labelsWire : List (List UInt8) → List UInt8
  | [] => [0]
  | label :: labels => UInt8.ofNat label.length :: label ++ labelsWire labels

/-- One label more on the wire. -/
theorem labelsWire_cons (label : List UInt8) (labels : List (List UInt8)) :
    labelsWire (label :: labels) = (UInt8.ofNat label.length :: label) ++ labelsWire labels := rfl

def nameWire (name : List UInt8) : List UInt8 := labelsWire (name.splitOn 0x2E)

/-- What is put replaces the bytes there. -/
theorem dnsPut_eq {bytes packet : List UInt8} {pos : Nat} (h : pos + bytes.length ≤ packet.length) :
    dnsPut bytes packet pos =
      some (packet.take pos ++ bytes ++ packet.drop (pos + bytes.length), pos + bytes.length) := by
  induction bytes generalizing packet pos with
  | nil => simp [dnsPut]
  | cons b bytes ih =>
    rw [List.length_cons] at h ⊢
    rw [dnsPut, if_pos (by omega), ih (by rw [List.length_set]; omega)]
    have htake : (packet.set pos b).take (pos + 1) = packet.take pos ++ [b] := by
      rw [List.take_add_one, List.take_set_of_le (Nat.le_refl _), List.getElem?_set_self (by omega)]
      rfl
    have hdrop : (packet.set pos b).drop (pos + 1 + bytes.length) =
        packet.drop (pos + (bytes.length + 1)) := by
      rw [List.drop_set_of_lt (by omega)]
      congr 1
      omega
    rw [htake, hdrop]
    simp only [List.append_assoc, List.singleton_append]
    congr 2
    omega

/-- In front of the splice. -/
theorem take_splice {bytes packet : List UInt8} {pos : Nat}
    (h : pos + bytes.length ≤ packet.length) :
    (packet.take pos ++ bytes ++ packet.drop (pos + bytes.length)).take (pos + bytes.length) =
      packet.take pos ++ bytes := by
  apply List.take_left'
  rw [List.length_append, List.length_take]
  omega

/-- Behind the splice. -/
theorem drop_splice {bytes packet : List UInt8} {pos : Nat}
    (h : pos + bytes.length ≤ packet.length) (n : Nat) :
    (packet.take pos ++ bytes ++ packet.drop (pos + bytes.length)).drop (pos + bytes.length + n) =
      packet.drop (pos + bytes.length + n) := by
  rw [← List.drop_drop, List.drop_left', List.drop_drop]
  rw [List.length_append, List.length_take]
  omega

def ShortLabel (label : List UInt8) : Prop := 0 < label.length ∧ label.length ≤ 63

/-- The encoder writes the labels where there is room. -/
theorem dnsEncodeFrom_eq {labels : List (List UInt8)} {packet : List UInt8} {pos max : Nat}
    (hshort : ∀ label ∈ labels, ShortLabel label) (hmax : max ≤ packet.length) :
    dnsEncodeFrom max labels packet pos =
      if pos + (labelsWire labels).length ≤ max then
        some (some (packet.take pos ++ labelsWire labels ++
          packet.drop (pos + (labelsWire labels).length),
          pos + (labelsWire labels).length))
      else some none := by
  induction labels generalizing packet pos with
  | nil =>
    rw [dnsEncodeFrom]
    by_cases hroom : pos ≥ max
    · rw [if_pos hroom, if_neg (by simp only [labelsWire, List.length_singleton]; omega)]
    · rw [if_neg hroom, if_pos (by simp only [labelsWire, List.length_singleton]; omega),
        dnsPut_eq (by simp only [List.length_singleton]; omega)]
      rfl
  | cons label labels ih =>
    obtain ⟨hpos, hlen⟩ := hshort label List.mem_cons_self
    have hwire : 1 ≤ (labelsWire labels).length := by
      cases labels with
      | nil => exact Nat.le_refl _
      | cons => simp only [labelsWire, List.cons_append, List.length_cons]; omega
    have hlength : (labelsWire (label :: labels)).length = label.length + 1 +
        (labelsWire labels).length := by
      simp only [labelsWire, List.cons_append, List.length_cons, List.length_append]
      omega
    rw [dnsEncodeFrom, hlength]
    by_cases hroom : pos + label.length + 1 ≥ max
    · rw [if_pos (.inr (.inr hroom)), if_neg (by omega)]
    · have hfits : pos + (UInt8.ofNat label.length :: label).length ≤ packet.length := by
        rw [List.length_cons]
        omega
      have hsame : max ≤ (packet.take pos ++ (UInt8.ofNat label.length :: label) ++
          packet.drop (pos + (UInt8.ofNat label.length :: label).length)).length := by
        simp only [List.length_append, List.length_take, List.length_drop]
        omega
      rw [if_neg (by omega), dnsPut_eq hfits]
      simp only [Option.bind_eq_bind, Option.bind_some]
      rw [ih (fun l hl => hshort l (List.mem_cons_of_mem _ hl)) hsame, take_splice hfits,
        drop_splice hfits,
        List.length_cons, Nat.add_assoc pos, labelsWire_cons, ← List.append_assoc (packet.take pos)]

structure PlainLabel (label : List UInt8) : Prop extends ShortLabel label where
  plain : ∀ b ∈ label, b ≠ 0 ∧ b ≠ 0x2E

/-- A plain label is copied in lower case. -/
theorem dnsCopyLabel_plain {d label rest : List UInt8} {cursor : Nat}
    (hd : d.drop cursor = label ++ rest) (hplain : ∀ b ∈ label, b ≠ 0 ∧ b ≠ 0x2E)
    (out : List UInt8) :
    dnsCopyLabel d label.length cursor out = some (some (out ++ label.map dnsLower)) := by
  induction label generalizing cursor out with
  | nil => simp [dnsCopyLabel]
  | cons b label ih =>
    have hb : d[cursor]? = some b := by
      rw [← List.head?_drop, hd]
      rfl
    have hnext : d.drop (cursor + 1) = label ++ rest := by
      rw [← List.drop_drop, hd]
      rfl
    rw [List.length_cons, dnsCopyLabel, hb]
    simp only [Option.bind_eq_bind, Option.bind_some]
    rw [if_neg (not_or.mpr (hplain b List.mem_cons_self)), ih hnext fun b hb => hplain b (List.mem_cons_of_mem _ hb)]
    simp

/-- Labels only add. -/
theorem extend_length (out : List UInt8) (labels : List (List UInt8)) :
    out.length ≤ (extend out labels).length := by
  induction labels generalizing out with
  | nil => exact Nat.le_refl _
  | cons label labels ih =>
    refine Nat.le_trans ?_ (ih _)
    rw [List.length_append]
    split
    · simp only [List.length_append]
      omega
    · omega

/-- The length of a label is neither a pointer nor the end. -/
theorem length_byte : ∀ n < 64, 0 < n → UInt8.ofNat n ≠ 0 ∧ UInt8.ofNat n &&& 0xC0 ≠ 0xC0 ∧ ¬ UInt8.ofNat n > 63 ∧
    (UInt8.ofNat n).toNat = n := by
  decide

/-- The decoder reads back plain labels. -/
theorem dnsDecodeFrom_labelsWire {d rest : List UInt8} {labels : List (List UInt8)}
    {outMax rounds cursor : Nat} {out : List UInt8}
    (hd : d.drop cursor = labelsWire labels ++ rest) (hplain : ∀ label ∈ labels, PlainLabel label)
    (hroom : (extend out labels).length < outMax) (hrounds : labels.length < rounds) :
    dnsDecodeFrom d outMax rounds cursor out 0 none =
      some (some (extend out labels, cursor + (labelsWire labels).length)) := by
  induction labels generalizing cursor out rounds with
  | nil =>
    obtain ⟨rounds, rfl⟩ := Nat.exists_eq_succ_of_ne_zero (Nat.ne_of_gt hrounds)
    have hzero : d[cursor]? = some 0 := by
      rw [← List.head?_drop, hd]
      rfl
    rw [dnsDecodeFrom, if_pos (List.getElem?_eq_some_iff.mp hzero).1, hzero]
    rfl
  | cons label labels ih =>
    obtain ⟨rounds, rfl⟩ := Nat.exists_eq_succ_of_ne_zero (Nat.ne_of_gt (Nat.lt_of_le_of_lt (Nat.zero_le _) hrounds))
    obtain ⟨hshort, hbytes⟩ := hplain label List.mem_cons_self
    have hlen : d[cursor]? = some (UInt8.ofNat label.length) := by
      rw [← List.head?_drop, hd]
      rfl
    have hnext : d.drop (cursor + 1) = label ++ (labelsWire labels ++ rest) := by
      rw [← List.drop_drop, hd]
      simp [labelsWire]
    have hfits : cursor + 1 + label.length ≤ d.length := by
      have hlength := congrArg List.length hnext
      rw [List.length_drop, List.length_append] at hlength
      omega
    obtain ⟨hzero, hmark, hlong, hnat⟩ := length_byte label.length (Nat.lt_succ_of_le hshort.2) hshort.1
    have hout : (if out.length > 0 then out ++ [0x2E] else out).length = out.length + (if out.length > 0 then 1 else 0) := by
      split <;> simp
    have hlast := extend_length ((if out.length > 0 then out ++ [0x2E] else out) ++ label.map dnsLower) labels
    rw [List.length_append, List.length_map, hout] at hlast
    rw [extend] at hroom
    rw [dnsDecodeFrom, if_pos (List.getElem?_eq_some_iff.mp hlen).1, hlen]
    simp only [Option.bind_eq_bind, Option.bind_some]
    rw [if_neg hzero, if_neg hmark, hnat, if_neg (not_or.mpr ⟨hlong, by omega⟩), if_neg (by omega),
      dnsCopyLabel_plain hnext hbytes]
    simp only [Option.bind_some]
    have hrest : d.drop (cursor + 1 + label.length) = labelsWire labels ++ rest := by
      rw [← List.drop_drop, hnext, List.drop_left]
    rw [ih hrest (fun l hl => hplain l (List.mem_cons_of_mem _ hl)) hroom (Nat.lt_of_succ_lt_succ hrounds), extend,
      labelsWire_cons, List.length_append, List.length_cons]
    congr 3
    omega

/-- A character of a label is no zero. -/
theorem dnsLabelChar_plain {ch : UInt8} (h : dnsLabelChar ch = true) : ch ≠ 0 := by
  rintro rfl
  exact absurd h (by decide)

variable {name : List UInt8}

/-- What the check of a name says of the label it is in and of the rest. -/
theorem dnsValidFrom_spec {labelLen totalLen : Nat}
    (h : dnsValidFrom name labelLen totalLen = true) :
    ∃ label labels, name.splitOn 0x2E = label :: labels ∧
      (0 < labelLen + label.length ∧ labelLen + label.length ≤ 63) ∧
      (∀ b ∈ label, b ≠ 0 ∧ b ≠ 0x2E) ∧ (∀ l ∈ labels, PlainLabel l) ∧
      (name ≠ [] → totalLen + name.length < dnsMaxName) := by
  induction name generalizing labelLen totalLen with
  | nil =>
    rw [dnsValidFrom, decide_eq_true_eq] at h
    exact ⟨[], [], rfl, h, by simp, by simp, fun hne => absurd rfl hne⟩
  | cons ch name ih =>
    rw [dnsValidFrom] at h
    by_cases hlength : totalLen + 1 ≥ dnsMaxName
    · rw [if_pos hlength] at h
      cases h
    rw [if_neg hlength] at h
    have hlast (hname : name ≠ [] → totalLen + 1 + name.length < dnsMaxName) :
        totalLen + (ch :: name).length < dnsMaxName := by
      rw [List.length_cons]
      cases name with
      | nil => simpa using Nat.lt_of_not_le hlength
      | cons c name =>
        have := hname (List.cons_ne_nil _ _)
        omega
    by_cases hdot : ch = 0x2E
    · rw [if_pos hdot] at h
      by_cases hlabel : labelLen = 0 ∨ labelLen > 63
      · rw [if_pos hlabel] at h
        cases h
      rw [if_neg hlabel] at h
      obtain ⟨label, labels, hsplit, hshort, hplain, hlabels, hname⟩ := ih h
      refine ⟨[], label :: labels, ?_, by rw [List.length_nil]; omega, by simp, ?_, fun _ => hlast hname⟩
      · rw [List.splitOn_cons_eq_if_modifyHead, hsplit, if_pos (by simpa using hdot)]
      · intro l hl
        rcases List.mem_cons.mp hl with rfl | hl
        · exact ⟨by simpa [ShortLabel] using hshort, hplain⟩
        · exact hlabels l hl
    · rw [if_neg hdot] at h
      by_cases hchar : (!dnsLabelChar ch) = true
      · rw [if_pos hchar] at h
        cases h
      rw [if_neg hchar] at h
      obtain ⟨label, labels, hsplit, hshort, hplain, hlabels, hname⟩ := ih h
      refine ⟨ch :: label, labels, ?_, by rw [List.length_cons]; omega, ?_, hlabels, fun _ => hlast hname⟩
      · rw [List.splitOn_cons_eq_if_modifyHead, hsplit, if_neg (by simpa using hdot)]
        rfl
      · intro b hb
        rcases List.mem_cons.mp hb with rfl | hb
        · exact ⟨dnsLabelChar_plain (by simpa using hchar), hdot⟩
        · exact hplain b hb

/-- A valid name has plain labels. -/
theorem dnsValidName_spec (h : dnsValidName name = true) :
    (∀ label ∈ name.splitOn 0x2E, PlainLabel label) ∧ name.length < dnsMaxName := by
  rw [dnsValidName, Bool.and_eq_true] at h
  obtain ⟨label, labels, hsplit, hshort, hplain, hlabels, hname⟩ := dnsValidFrom_spec h.2
  constructor
  · rw [hsplit]
    intro l hl
    rcases List.mem_cons.mp hl with rfl | hl
    · exact ⟨by simpa [ShortLabel] using hshort, hplain⟩
    · exact hlabels l hl
  · have hne : name ≠ [] := by simpa using h.1
    simpa using hname hne

/-- Lower case, label by label. -/
theorem map_lower_intercalate (labels : List (List UInt8)) :
    [0x2E].intercalate (labels.map (·.map dnsLower)) = dnsStrLower ([0x2E].intercalate labels) := by
  induction labels with
  | nil => rfl
  | cons label labels ih =>
    cases labels with
    | nil => simp [dnsStrLower]
    | cons next labels =>
      have hdot : dnsLower 0x2E = 0x2E := by decide
      rw [List.map_cons] at ih ⊢
      rw [List.map_cons, List.intercalate_cons_cons, ih, List.intercalate_cons_cons]
      simp [dnsStrLower, hdot]

/-- The labels of a name give the name in lower case. -/
theorem extend_splitOn (h : ∀ label ∈ name.splitOn 0x2E, PlainLabel label) :
    extend [] (name.splitOn 0x2E) = dnsStrLower name := by
  rw [extend_nil fun label hl => List.ne_nil_of_length_pos (h label hl).1.1, nameText,
    map_lower_intercalate,
    List.intercalate_splitOn]

/-- The wire is longer than the number of the labels. -/
theorem labels_length_le (labels : List (List UInt8)) :
    labels.length < (labelsWire labels).length := by
  induction labels with
  | nil => exact Nat.zero_lt_one
  | cons label labels ih =>
    rw [labelsWire_cons, List.length_append, List.length_cons, List.length_cons]
    omega

/-- A valid name is read back in lower case, wherever it stands. -/
theorem dnsDecodeNameInto_nameWire (h : dnsValidName name = true) (before after : List UInt8)
    {outMax : Nat} (hmax : dnsMaxName ≤ outMax) :
    dnsDecodeNameInto (before ++ nameWire name ++ after) before.length outMax =
      some (some (dnsStrLower name, before.length + (nameWire name).length)) := by
  obtain ⟨hplain, hlength⟩ := dnsValidName_spec h
  have htext := extend_splitOn hplain
  have hfew := labels_length_le (name.splitOn 0x2E)
  rw [dnsDecodeNameInto_eq _ (Nat.lt_of_lt_of_le (by decide) hmax), ← htext]
  apply dnsDecodeFrom_labelsWire
  · rw [List.append_assoc, List.drop_left]
    rfl
  · exact hplain
  · rw [htext, dnsStrLower, List.length_map]
    omega
  · rw [List.length_append, List.length_append, nameWire]
    omega

/-- What is written of a valid name into a packet with room for it is read back in small letters, at
any place of any packet, and the decoder fails on no packet and no position. -/
theorem dnsName_codec (name packet : List UInt8) (pos max : Nat) (hvalid : dnsValidName name = true)
    (hmax : max ≤ packet.length) : (dnsEncodeName packet pos max name =
        if pos + (nameWire name).length ≤ max then
          some (some (packet.take pos ++ nameWire name ++
            packet.drop (pos + (nameWire name).length),
            pos + (nameWire name).length))
        else some none) ∧ (∀ (before after : List UInt8) (outMax : Nat), dnsMaxName ≤ outMax →
        dnsDecodeNameInto (before ++ nameWire name ++ after) before.length outMax =
          some (some (dnsStrLower name, before.length + (nameWire name).length))) ∧
      ∀ (d : List UInt8) (start outMax : Nat), 0 < outMax →
      dnsDecodeNameInto d start outMax ≠ none := by
  refine ⟨?_, fun before after outMax houtMax => dnsDecodeNameInto_nameWire hvalid before after houtMax,
    fun d start outMax houtMax => dnsDecodeNameInto_ne_none d start houtMax⟩
  exact dnsEncodeFrom_eq (fun label hl => ((dnsValidName_spec hvalid).1 label hl).1) hmax

def shortName : List UInt8 := [0x4D, 0x6F, 0x2E, 0x6F, 0x73]

theorem dnsName_codec_shortName : nameWire shortName = [2, 0x4D, 0x6F, 2, 0x6F, 0x73, 0] ∧
      dnsDecodeNameInto ([7] ++ nameWire shortName ++ [9]) 1 64 =
      some (some ([0x6D, 0x6F, 0x2E, 0x6F, 0x73], 8)) := by
  have hwire : nameWire shortName = [2, 0x4D, 0x6F, 2, 0x6F, 0x73, 0] := by decide
  have hcodec := (dnsName_codec shortName (List.replicate 16 0) 1 16 (by decide) (by decide)).2.1 [7] [9] 64 (by decide)
  refine ⟨hwire, ?_⟩
  rw [hwire] at hcodec ⊢
  exact hcodec

end Monios.Analysis.DnsNames
