import Monios.Model.Dns

/-!
# Answers that the resolver takes

`NameAt` and `Records` say which names and records a datagram has, with the compression of names. An
address becomes valid only by an A record for a name that the asked one is an alias of by the
records before it, in an answer of the right server to the right question (`dnsHandleUdp_sound`).
-/

set_option autoImplicit false

namespace Monios.Analysis.DnsAnswers

open Monios.Model.Dns

/-- A label that a dotted name can hold: no zero and no dot is in it. -/
def Dotless (label : List UInt8) : Prop := ∀ b ∈ label, b ≠ 0 ∧ b ≠ 0x2E

/-- The name at `pos` of a message, label by label, with compression pointers; its labels are plain.
-/
inductive NameAt (d : List UInt8) : Nat → List (List UInt8) → Nat → Prop
  | root {pos : Nat} (h : d[pos]? = some 0) : NameAt d pos [] (pos + 1)
  | label {pos next : Nat} {len : UInt8} {label : List UInt8} {labels : List (List UInt8)} (h : d[pos]? = some len)
      (hpos : len ≠ 0) (hshort : len ≤ 63) (hlen : label.length = len.toNat) (hlabel : (d.drop (pos + 1)).take len.toNat = label)
      (hplain : Dotless label)
      (rest : NameAt d (pos + 1 + len.toNat) labels next) : NameAt d pos (label :: labels) next
  | pointer {pos next : Nat} {high low : UInt8} {labels : List (List UInt8)} (hhigh : d[pos]? = some high)
      (hlow : d[pos + 1]? = some low) (hmark : high &&& 0xC0 = 0xC0)
      (rest : NameAt d ((high &&& 0x3F).toNat * 256 + low.toNat) labels next) : NameAt d pos labels (pos + 2)

def nameText (labels : List (List UInt8)) : List UInt8 :=
  [0x2E].intercalate (labels.map (·.map dnsLower))

/-- The labels of a dotted name; the empty text is the name of the root. -/
def labelsOf (name : List UInt8) : List (List UInt8) := if name = [] then [] else name.splitOn 0x2E

structure Record where
  owner : List (List UInt8)
  type : Nat
  klass : Nat
  rdata : Nat
  rdlen : Nat

inductive Records (d : List UInt8) : Nat → List Record → Prop
  | nil (pos : Nat) : Records d pos []
  | cons {pos next : Nat} {record : Record} {records : List Record} (hname : NameAt d pos record.owner next)
      (htype : dnsGet16 d next = some record.type) (hklass : dnsGet16 d (next + 2) = some record.klass)
      (hrdlen : dnsGet16 d (next + 8) = some record.rdlen) (hrdata : record.rdata = next + 10)
      (hend : record.rdata + record.rdlen ≤ d.length) (rest : Records d (record.rdata + record.rdlen) records) :
      Records d pos (record :: records)

def Alias (d : List UInt8) (records : List Record) (name target : List UInt8) : Prop :=
  ∃ record ∈ records, record.type = dnsTypeCname ∧ record.klass = dnsClassIn ∧ nameText record.owner = name ∧
    ∃ labels, NameAt d record.rdata labels (record.rdata + record.rdlen) ∧ nameText labels = target

structure Answers (s : Resolver) (srcIp : List UInt8) (srcPort : Nat) (d : List UInt8) (ip : List UInt8) : Prop where
  waiting : s.waiting = true
  server : srcIp = s.serverIp
  port : srcPort = dnsPort
  id : dnsGet16 d 0 = some s.queryId
  single : dnsGet16 d 4 = some 1
  record : ∃ question next count before record,
    NameAt d 12 question next ∧ question.map (·.map dnsLower) = labelsOf (s.queryName.map dnsLower) ∧
      dnsGet16 d next = some dnsTypeA ∧ dnsGet16 d (next + 2) = some dnsClassIn ∧
      dnsGet16 d 6 = some count ∧ before.length < count ∧ Records d (next + 4) (before ++ [record]) ∧
      record.type = dnsTypeA ∧ record.klass = dnsClassIn ∧ record.rdlen = 4 ∧
      Relation.ReflTransGen (Alias d before) (s.queryName.map dnsLower) (nameText record.owner) ∧
      ip = (d.drop record.rdata).take 4

section

variable {d : List UInt8}

theorem getElem?_of_lt {pos : Nat} (h : pos < d.length) : ∃ b, d[pos]? = some b :=
  ⟨d[pos], List.getElem?_eq_getElem h⟩

theorem dnsGet16_of_le {pos : Nat} (h : pos + 2 ≤ d.length) :
    ∃ value, dnsGet16 d pos = some value := by
  obtain ⟨high, hhigh⟩ := @getElem?_of_lt d pos (by omega)
  obtain ⟨low, hlow⟩ := @getElem?_of_lt d (pos + 1) (by omega)
  exact ⟨_, by rw [dnsGet16, hhigh, hlow]; rfl⟩

theorem dnsGet32_of_le {pos : Nat} (h : pos + 4 ≤ d.length) :
    ∃ value, dnsGet32 d pos = some value := by
  obtain ⟨high, hhigh⟩ := @dnsGet16_of_le d pos (by omega)
  obtain ⟨low, hlow⟩ := @dnsGet16_of_le d (pos + 2) (by omega)
  exact ⟨_, by rw [dnsGet32, hhigh, hlow]; rfl⟩

theorem dnsCopy_of_le {pos n : Nat} (h : pos + n ≤ d.length) :
    dnsCopy d pos n = some ((d.drop pos).take n) := by
  induction n generalizing pos with
  | zero => rfl
  | succ n ih =>
    have hlt : pos < d.length := by omega
    rw [dnsCopy, List.getElem?_eq_getElem hlt, ih (by omega), List.drop_eq_getElem_cons hlt]
    rfl

theorem dnsCopyLabel_of_le {cursor n : Nat} (h : cursor + n ≤ d.length) (out : List UInt8) :
    dnsCopyLabel d n cursor out = some none ∨ Dotless ((d.drop cursor).take n) ∧
      dnsCopyLabel d n cursor out = some (some (out ++ ((d.drop cursor).take n).map dnsLower)) := by
  induction n generalizing cursor out with
  | zero =>
    right
    simp [dnsCopyLabel, Dotless]
  | succ n ih =>
    have hlt : cursor < d.length := by omega
    rw [dnsCopyLabel, List.getElem?_eq_getElem hlt]
    simp only [Option.bind_eq_bind, Option.bind_some]
    split
    · exact .inl rfl
    · next hb =>
      rw [not_or] at hb
      cases @ih (cursor + 1) (by omega) (out ++ [dnsLower d[cursor]]) with
      | inl hbad => exact .inl hbad
      | inr hcopy =>
        right
        rw [hcopy.2, List.drop_eq_getElem_cons hlt, List.take_succ_cons, List.map_cons,
          List.append_assoc,
          List.singleton_append]
        exact ⟨List.forall_mem_cons.mpr ⟨hb, hcopy.1⟩, rfl⟩

def extend (out : List UInt8) : List (List UInt8) → List UInt8
  | [] => out
  | label :: labels =>
    extend ((if out.length > 0 then out ++ [0x2E] else out) ++ label.map dnsLower) labels

theorem extend_of_ne_nil {out : List UInt8} (hout : out ≠ []) (labels : List (List UInt8))
    (hne : labels ≠ []) :
    extend out labels = out ++ 0x2E :: nameText labels := by
  induction labels generalizing out with
  | nil => exact absurd rfl hne
  | cons label labels ih =>
    rw [extend, if_pos (List.length_pos_iff.mpr hout)]
    cases labels with
    | nil => simp [extend, nameText, List.intercalate]
    | cons next labels =>
      rw [ih (by simp) (List.cons_ne_nil _ _)]
      simp [nameText, List.intercalate]

theorem extend_nil {labels : List (List UInt8)} (hne : ∀ label ∈ labels, label ≠ []) :
    extend [] labels = nameText labels := by
  cases labels with
  | nil => rfl
  | cons label labels =>
    show extend (label.map dnsLower) labels = _
    cases labels with
    | nil => simp [extend, nameText, List.intercalate]
    | cons next labels =>
      have hlabel : label.map dnsLower ≠ [] := by
        rw [ne_eq, List.map_eq_nil_iff]
        exact hne label List.mem_cons_self
      rw [extend_of_ne_nil hlabel _ (List.cons_ne_nil _ _)]
      simp [nameText, List.intercalate]

theorem nameAt_labels {pos next : Nat} {labels : List (List UInt8)} (h : NameAt d pos labels next) :
    ∀ label ∈ labels, label ≠ [] := by
  induction h with
  | root h => exact fun _ hmem => absurd hmem List.not_mem_nil
  | label h hpos hshort hlen hlabel hplain rest ih =>
    intro label hmem
    cases List.mem_cons.mp hmem with
    | inl heq =>
      rw [heq]
      rintro rfl
      apply hpos
      apply UInt8.toNat_inj.mp
      exact hlen.symm
    | inr hmem => exact ih label hmem
  | pointer hhigh hlow hmark rest ih => exact ih

theorem nameAt_plain {pos next : Nat} {labels : List (List UInt8)} (h : NameAt d pos labels next) :
    ∀ label ∈ labels, Dotless label := by
  induction h with
  | root h => exact fun _ hmem => absurd hmem List.not_mem_nil
  | label h hpos hshort hlen hlabel hplain rest ih => exact List.forall_mem_cons.mpr ⟨hplain, ih⟩
  | pointer hhigh hlow hmark rest ih => exact ih

theorem dnsLower_ne_dot {b : UInt8} (h : b ≠ 0x2E) : dnsLower b ≠ 0x2E := by
  unfold dnsLower
  split
  · next hupper =>
    intro hdot
    have hle := UInt8.le_iff_toNat_le.mp hupper.1
    have hge := UInt8.le_iff_toNat_le.mp hupper.2
    have hsum := congrArg UInt8.toNat hdot
    simp only [UInt8.toNat_add, UInt8.toNat_sub, UInt8.reduceToNat] at hle hge hsum
    omega
  · exact h

/-- A dotted text stands for one name: the labels of a name in a message come back from its text. -/
theorem labelsOf_nameText {pos next : Nat} {labels : List (List UInt8)}
    (h : NameAt d pos labels next) :
    labelsOf (nameText labels) = labels.map (·.map dnsLower) := by
  have hplain : ∀ label ∈ labels.map (·.map dnsLower), 0x2E ∉ label := by
    intro label hmem hdot
    obtain ⟨label, hlabel, rfl⟩ := List.mem_map.mp hmem
    obtain ⟨b, hb, heq⟩ := List.mem_map.mp hdot
    exact dnsLower_ne_dot (nameAt_plain h label hlabel b hb).2 heq
  unfold labelsOf
  cases labels with
  | nil => rfl
  | cons label labels =>
    have hne : label.map dnsLower ≠ [] := fun hnil => nameAt_labels h label List.mem_cons_self (List.map_eq_nil_iff.mp hnil)
    have htext : nameText (label :: labels) ≠ [] := by
      cases labels <;> simp [nameText, List.intercalate, hne]
    rw [if_neg htext]
    exact List.splitOn_intercalate _ hplain (List.cons_ne_nil _ _)

def roundsLeft (d : List UInt8) (cursor hops : Nat) : Nat :=
  (16 - hops) * (d.length + 1) + (d.length - cursor)

theorem dnsDecodeFrom_spec {outMax rounds cursor hops : Nat} (out : List UInt8)
    (behind : Option Nat) (hhops : hops ≤ 16) (hbehind : ∀ pos, behind = some pos → pos ≤ d.length)
    (hrounds : roundsLeft d cursor hops < rounds) :
    dnsDecodeFrom d outMax rounds cursor out hops behind = some none ∨
      ∃ labels next, NameAt d cursor labels next ∧ behind.getD next ≤ d.length ∧
        dnsDecodeFrom d outMax rounds cursor out hops behind =
        some (some (extend out labels, behind.getD next)) := by
  induction rounds generalizing cursor out hops behind with
  | zero => exact absurd hrounds (Nat.not_lt_zero _)
  | succ rounds ih =>
    rw [dnsDecodeFrom]
    by_cases hcursor : cursor < d.length
    swap
    · exact .inl (if_neg hcursor)
    obtain ⟨len, hlen⟩ := getElem?_of_lt hcursor
    rw [if_pos hcursor, hlen, Option.bind_eq_bind, Option.bind_some]
    by_cases hzero : len = 0
    · rw [if_pos hzero]
      right
      refine ⟨[], cursor + 1, .root (by rw [hlen, hzero]), ?_, rfl⟩
      cases behind with
      | none => exact hcursor
      | some pos => exact hbehind pos rfl
    rw [if_neg hzero]
    by_cases hmark : len &&& 0xC0 = 0xC0
    · rw [if_pos hmark]
      by_cases hjump : cursor + 1 ≥ d.length ∨ hops + 1 > 16
      · exact .inl (if_pos hjump)
      rw [if_neg hjump]
      obtain ⟨low, hlow⟩ := @getElem?_of_lt d (cursor + 1) (by omega)
      rw [hlow, Option.bind_some]
      by_cases htarget : (len &&& 0x3F).toNat * 256 + low.toNat ≥ d.length
      · exact .inl (if_pos htarget)
      rw [if_neg htarget]
      have hnext := @ih ((len &&& 0x3F).toNat * 256 + low.toNat) (hops + 1) out (some (behind.getD (cursor + 1 + 1)))
        (by omega)
        (by
          intro pos hpos
          cases behind with
          | none =>
            cases hpos
            show cursor + 1 + 1 ≤ d.length
            omega
          | some pos' => exact hbehind pos hpos)
        (by
          unfold roundsLeft at hrounds ⊢
          have hsplit : 16 - hops = (16 - (hops + 1)) + 1 := by omega
          rw [hsplit, Nat.add_mul] at hrounds
          omega)
      cases hnext with
      | inl hbad => exact .inl hbad
      | inr hgood =>
        obtain ⟨labels, next, hname, hle, heq⟩ := hgood
        right
        exact ⟨labels, cursor + 2, .pointer hlen hlow hmark hname, hle, heq⟩
    rw [if_neg hmark]
    by_cases hlabel : len > 63 ∨ cursor + 1 + len.toNat > d.length
    · exact .inl (if_pos hlabel)
    rw [if_neg hlabel]
    by_cases hroom : out.length + (if out.length > 0 then 1 else 0) + len.toNat ≥ outMax
    · rw [if_pos hroom]
      exact .inl rfl
    rw [if_neg hroom]
    rw [not_or] at hlabel
    have hshort := UInt8.not_lt.mp hlabel.1
    have hend := Nat.not_lt.mp hlabel.2
    cases dnsCopyLabel_of_le hend (if out.length > 0 then out ++ [0x2E] else out) with
    | inl hbad =>
      rw [hbad]
      exact .inl rfl
    | inr hcopy =>
      obtain ⟨hplain, hcopy⟩ := hcopy
      rw [hcopy]
      have hnext := @ih (cursor + 1 + len.toNat) hops
        ((if out.length > 0 then out ++ [0x2E] else out) ++ ((d.drop (cursor + 1)).take len.toNat).map dnsLower) behind
        hhops hbehind (by
          unfold roundsLeft at hrounds ⊢
          omega)
      cases hnext with
      | inl hbad => exact .inl hbad
      | inr hgood =>
        obtain ⟨labels, next, hname, hle, heq⟩ := hgood
        right
        refine ⟨(d.drop (cursor + 1)).take len.toNat :: labels, next,
          .label hlen hzero hshort ?_ rfl hplain hname, hle, heq⟩
        rw [List.length_take, List.length_drop]
        omega

theorem dnsDecodeName_spec (d : List UInt8) (pos : Nat) : dnsDecodeName d pos = some none ∨
      ∃ labels next, NameAt d pos labels next ∧ next ≤ d.length ∧
      dnsDecodeName d pos = some (some (nameText labels, next)) := by
  have h := @dnsDecodeFrom_spec d dnsMaxName (17 * (d.length + 1)) pos 0 [] none (by omega)
    (fun _ hnone => by cases hnone) (by unfold roundsLeft; omega)
  cases h with
  | inl hbad => exact .inl hbad
  | inr hgood =>
    obtain ⟨labels, next, hname, hle, heq⟩ := hgood
    rw [extend_nil (nameAt_labels hname)] at heq
    exact .inr ⟨labels, next, hname, hle, heq⟩

theorem dnsQuestions_one (d desired : List UInt8) (pos : Nat) :
    ∃ questions, dnsQuestions d desired 1 pos = some questions ∧
      ∀ next, questions = .answered next → ∃ question behind, NameAt d pos question behind ∧
      nameText question = desired ∧
        dnsGet16 d behind = some dnsTypeA ∧ dnsGet16 d (behind + 2) = some dnsClassIn ∧
        next = behind + 4 := by
  rw [dnsQuestions]
  cases dnsDecodeName_spec d pos with
  | inl hbad =>
    rw [hbad]
    exact ⟨.malformed, rfl, fun _ h => by cases h⟩
  | inr hgood =>
    obtain ⟨labels, behind, hname, -, heq⟩ := hgood
    rw [heq]
    simp only [Option.bind_eq_bind, Option.bind_some]
    split
    · exact ⟨.malformed, rfl, fun _ h => by cases h⟩
    next hroom =>
    obtain ⟨type, htype⟩ := @dnsGet16_of_le d behind (by omega)
    obtain ⟨klass, hklass⟩ := @dnsGet16_of_le d (behind + 2) (by omega)
    rw [htype, hklass]
    simp only [Option.bind_some]
    split
    · exact ⟨.mismatch, rfl, fun _ h => by cases h⟩
    next hmatch =>
    simp only [ne_eq, not_or, Classical.not_not] at hmatch
    obtain ⟨hdesired, rfl, rfl⟩ := hmatch
    refine ⟨.answered (behind + 4), rfl, fun next h => ?_⟩
    cases h
    exact ⟨labels, behind, hname, hdesired, htype, hklass, rfl⟩

theorem Alias.mono {records : List Record} {name target : List UInt8} (record : Record)
    (h : Alias d records name target) :
    Alias d (record :: records) name target := by
  obtain ⟨r, hr, h⟩ := h
  exact ⟨r, List.mem_cons_of_mem _ hr, h⟩

def Resolved (s : Resolver) : Prop := s.answerValid = true ∧ s.cname = []

theorem not_resolved_finish {s : Resolver} (h : ¬ Resolved s) : ¬ Resolved (dnsFinish s) := by
  unfold dnsFinish
  split
  · next hcname => exact fun hresolved => hcname hresolved.2
  · exact h

def Taken (d : List UInt8) (count pos : Nat) (desired ip : List UInt8) : Prop :=
  ∃ before record, before.length < count ∧ Records d pos (before ++ [record]) ∧ record.type = dnsTypeA ∧
    record.klass = dnsClassIn ∧ record.rdlen = 4 ∧
    Relation.ReflTransGen (Alias d before) desired (nameText record.owner) ∧ ip = (d.drop record.rdata).take 4

theorem Taken.cons {count pos next : Nat} {desired desired' ip : List UInt8} {record : Record}
    (hrecord : ∀ records, Records d next records → Records d pos (record :: records))
    (hdesired : desired' = desired ∨ ∀ records, Alias d (record :: records) desired desired')
    (h : Taken d count next desired' ip) : Taken d (count + 1) pos desired ip := by
  obtain ⟨before, last, hcount, hrecords, htype, hklass, hrdlen, hreach, hip⟩ := h
  refine ⟨record :: before, last, Nat.succ_lt_succ hcount, hrecord _ hrecords, htype, hklass,
    hrdlen, ?_, hip⟩
  have hreach' : Relation.ReflTransGen (Alias d (record :: before)) desired' (nameText last.owner) :=
    hreach.lift id fun _ _ h => Alias.mono record h
  cases hdesired with
  | inl heq =>
    rw [← heq]
    exact hreach'
  | inr halias => exact hreach'.head (halias before)

theorem dnsAnswers_spec (count pos : Nat) (desired : List UInt8) (s : Resolver) :
    ∃ s', dnsAnswers d count pos desired s = some s' ∧
      (¬ Resolved s → Resolved s' → Taken d count pos desired s'.answerIp) := by
  induction count generalizing pos desired s with
  | zero => exact ⟨_, rfl, fun h hresolved => absurd hresolved (not_resolved_finish h)⟩
  | succ count ih =>
    rw [dnsAnswers]
    cases dnsDecodeName_spec d pos with
    | inl hbad =>
      rw [hbad]
      exact ⟨_, rfl, fun h hresolved => absurd hresolved (not_resolved_finish h)⟩
    | inr hgood =>
      obtain ⟨owner, behind, hname, -, heq⟩ := hgood
      rw [heq]
      simp only [Option.bind_eq_bind, Option.bind_some]
      by_cases hroom : behind + 10 > d.length
      · rw [if_pos hroom]
        exact ⟨_, rfl, fun h hresolved => absurd hresolved (not_resolved_finish h)⟩
      rw [if_neg hroom]
      obtain ⟨type, htype⟩ := @dnsGet16_of_le d behind (by omega)
      obtain ⟨klass, hklass⟩ := @dnsGet16_of_le d (behind + 2) (by omega)
      obtain ⟨ttl, httl⟩ := @dnsGet32_of_le d (behind + 4) (by omega)
      obtain ⟨rdlen, hrdlen⟩ := @dnsGet16_of_le d (behind + 8) (by omega)
      rw [htype, hklass, httl, hrdlen]
      simp only [Option.bind_some]
      split
      · exact ⟨_, rfl, fun h hresolved => absurd hresolved (not_resolved_finish h)⟩
      next hend =>
      have hrecord (records : List Record) (hrest : Records d (behind + 10 + rdlen) records) :
          Records d pos (⟨owner, type, klass, behind + 10, rdlen⟩ :: records) :=
        .cons hname htype hklass hrdlen rfl (Nat.not_lt.mp hend) hrest
      have hskip : ∃ s', dnsAnswers d count (behind + 10 + rdlen) desired s = some s' ∧
          (¬ Resolved s → Resolved s' → Taken d (count + 1) pos desired s'.answerIp) := by
        obtain ⟨s', hrun, htaken⟩ := ih (behind + 10 + rdlen) desired s
        exact ⟨s', hrun, fun h hresolved => (htaken h hresolved).cons hrecord (.inl rfl)⟩
      split
      · exact hskip
      next hin =>
      simp only [ne_eq, Classical.not_not] at hin
      split
      · next haddress =>
        obtain ⟨ha, hfour, howner⟩ := haddress
        rw [dnsCopy_of_le (by omega)]
        refine ⟨_, rfl, fun _ _ => ⟨[], ⟨owner, type, klass, behind + 10, rdlen⟩, Nat.succ_pos _, hrecord [] (.nil _), ha, hin,
          hfour, ?_, rfl⟩⟩
        rw [← howner]
      split
      · next halias =>
        obtain ⟨hcname, howner⟩ := halias
        cases dnsDecodeName_spec d (behind + 10) with
        | inl hbad =>
          rw [hbad]
          exact hskip
        | inr hgood =>
          obtain ⟨target, finish, htarget, -, heq'⟩ := hgood
          rw [heq']
          simp only [Option.bind_some]
          split
          · next hfits =>
            obtain ⟨rfl, hne⟩ := hfits
            have hopen : ¬ Resolved { s with cname := (nameText target).take (dnsMaxName - 1) } := by
              intro hresolved
              cases List.take_eq_nil_iff.mp hresolved.2 with
              | inl hzero => cases hzero
              | inr hnil => exact hne hnil
            obtain ⟨s', hrun, htaken⟩ := ih (behind + 10 + rdlen) (nameText target)
              { s with cname := (nameText target).take (dnsMaxName - 1) }
            refine ⟨s', hrun, fun _ hresolved => (htaken hopen hresolved).cons hrecord (.inr fun records => ?_)⟩
            exact ⟨_, List.mem_cons_self, hcname, hin, howner, target, htarget, rfl⟩
          · exact hskip
      · exact hskip

end

/-- For every datagram `dns_handle_udp` comes to its end without a read outside of it.  Only a
datagram from the right server, port and with the right number changes anything, and only one that
answers the question with an address makes one valid. -/
theorem dnsHandleUdp_sound (s : Resolver) (srcIp : List UInt8) (srcPort : Nat) (d : List UInt8) :
    ∃ s', dnsHandleUdp s srcIp srcPort d = some s' ∧
      (srcIp ≠ s.serverIp ∨ srcPort ≠ dnsPort ∨ dnsGet16 d 0 ≠ some s.queryId → s' = s) ∧
      (Resolved s' → ¬ Resolved s → Answers s srcIp srcPort d s'.answerIp) := by
  unfold dnsHandleUdp
  split
  · exact ⟨s, rfl, fun _ => rfl, fun hnew hold => absurd hnew hold⟩
  next hcheck =>
  simp only [Bool.not_eq_true', not_or, Bool.not_eq_false, ne_eq, Classical.not_not,
    Nat.not_lt] at hcheck
  obtain ⟨hwaiting, hport, hlength⟩ := hcheck
  split
  · exact ⟨s, rfl, fun _ => rfl, fun hnew hold => absurd hnew hold⟩
  next hserver =>
  simp only [ne_eq, Classical.not_not] at hserver
  obtain ⟨id, hid⟩ := @dnsGet16_of_le d 0 (by omega)
  obtain ⟨flags, hflags⟩ := @dnsGet16_of_le d 2 (by omega)
  obtain ⟨qdcount, hqdcount⟩ := @dnsGet16_of_le d 4 (by omega)
  obtain ⟨ancount, hancount⟩ := @dnsGet16_of_le d 6 (by omega)
  rw [hid]
  simp only [Option.bind_eq_bind, Option.bind_some]
  split
  · exact ⟨s, rfl, fun _ => rfl, fun hnew hold => absurd hnew hold⟩
  next hsame =>
  simp only [ne_eq, Classical.not_not] at hsame
  have hright {p : Prop} (hwrong : srcIp ≠ s.serverIp ∨ srcPort ≠ dnsPort ∨ some id ≠ some s.queryId) : p := by
    obtain h | h | h := hwrong
    · exact absurd hserver h
    · exact absurd hport h
    · exact absurd (congrArg some hsame) h
  rw [hflags, hqdcount, hancount]
  simp only [Option.bind_some]
  split
  · exact ⟨_, rfl, hright, fun hnew hold => absurd hnew hold⟩
  split
  · exact ⟨_, rfl, hright, fun hnew hold => absurd hnew hold⟩
  next hsingle =>
  simp only [ne_eq, Classical.not_not] at hsingle
  rw [hsingle]
  obtain ⟨questions, hrun, hquestions⟩ := dnsQuestions_one d (s.queryName.map dnsLower) 12
  rw [hrun]
  simp only [Option.bind_some]
  cases questions with
  | malformed => exact ⟨_, rfl, hright, fun hnew hold => absurd hnew hold⟩
  | mismatch => exact ⟨_, rfl, hright, fun hnew hold => absurd hnew hold⟩
  | answered pos =>
    obtain ⟨question, behind, hquestion, htext, htype, hklass, rfl⟩ := hquestions pos rfl
    obtain ⟨s', hanswers, htaken⟩ := @dnsAnswers_spec d ancount (behind + 4) (s.queryName.map dnsLower) s
    refine ⟨s', hanswers, hright, fun hnew hold => ?_⟩
    obtain ⟨before, record, hcount, hrecords, ha, hin, hfour, hreach, hip⟩ := htaken hold hnew
    refine ⟨hwaiting, hserver, hport, by rw [hid, hsame], by rw [hqdcount, hsingle], ?_⟩
    have hlabels : question.map (·.map dnsLower) = labelsOf (s.queryName.map dnsLower) := by
      rw [← htext, labelsOf_nameText hquestion]
    exact ⟨question, behind, ancount, before, record, hquestion, hlabels, htype, hklass, hancount,
      hcount, hrecords, ha, hin,
      hfour, hreach, hip⟩

end Monios.Analysis.DnsAnswers
