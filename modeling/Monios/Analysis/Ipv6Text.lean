import Mathlib.Algebra.Order.Ring.Nat
import Mathlib.Data.List.TakeWhile
import Monios.Model.Ipv6

/-!
# Which texts are IPv6 addresses

The form of RFC 4291: eight groups of one to four hexadecimal digits with colons between them, or
two such sequences with `::` between them that stands for the groups that are missing. `Denotes
most` is the form with at most so many groups beside a `::`.
-/

set_option autoImplicit false

namespace Monios.Analysis.Ipv6Text

open Monios.Model.Ipv6

variable {ch : UInt8} {p : List UInt8} {i : Nat} {v : Nat} {s : List UInt8}

def digitOf (ch : UInt8) : Option Nat :=
  if 0x30 ≤ ch.toNat ∧ ch.toNat ≤ 0x39 then some (ch.toNat - 0x30)
  else if 0x61 ≤ ch.toNat ∧ ch.toNat ≤ 0x66 then some (ch.toNat - 0x61 + 10)
  else if 0x41 ≤ ch.toNat ∧ ch.toNat ≤ 0x46 then some (ch.toNat - 0x41 + 10)
  else none

structure IsGroup (g : List UInt8) : Prop where
  nonempty : g ≠ []
  length_le : g.length ≤ 4
  digits : ∀ ch ∈ g, (digitOf ch).isSome

def digitsValue (n : Nat) (g : List UInt8) : Nat :=
  g.foldl (fun n ch => 16 * n + (digitOf ch).getD 0) n

def groupWord (g : List UInt8) : UInt16 := UInt16.ofNat (digitsValue 0 g)

def joinGroups (gs : List (List UInt8)) : List UInt8 := [colon].intercalate gs

def gapText (hs ts : List (List UInt8)) : List UInt8 :=
  joinGroups hs ++ [colon, colon] ++ joinGroups ts

def gapWords (hs ts : List (List UInt8)) : List UInt16 :=
  hs.map groupWord ++ List.replicate (8 - (hs.length + ts.length)) 0 ++ ts.map groupWord

inductive Denotes (most : Nat) : List UInt8 → List UInt16 → Prop
  | full (gs : List (List UInt8)) (hgs : ∀ g ∈ gs, IsGroup g) (hlen : gs.length = 8) :
      Denotes most (joinGroups gs) (gs.map groupWord)
  | gap (hs ts : List (List UInt8)) (hhs : ∀ g ∈ hs, IsGroup g) (hts : ∀ g ∈ ts, IsGroup g)
      (hlen : hs.length + ts.length ≤ most) : Denotes most (gapText hs ts) (gapWords hs ts)

theorem toNat_sub_of_le {ch first : UInt8} (h : first.toNat ≤ ch.toNat) :
    (ch - first).toUInt32.toNat = ch.toNat - first.toNat := by
  rw [UInt8.toNat_toUInt32, UInt8.toNat_sub_of_le _ _ h]

theorem toNat_sub_add_ten {ch first : UInt8} (h : first.toNat ≤ ch.toNat)
    (hle : ch.toNat ≤ first.toNat + 5) :
    (ch - first + 10).toUInt32.toNat = ch.toNat - first.toNat + 10 := by
  have hten : (10 : UInt8).toNat = 10 := rfl
  rw [UInt8.toNat_toUInt32, UInt8.toNat_add, UInt8.toNat_sub_of_le _ _ h, hten]
  omega

/-- `ipv6_hex_value` reads the hexadecimal digits of both cases, and nothing else. -/
theorem ipv6HexValue_eq (ch : UInt8) : (ipv6HexValue ch).map UInt32.toNat = digitOf ch := by
  have hdec : (0x30 ≤ ch ∧ ch ≤ 0x39) ↔ (0x30 ≤ ch.toNat ∧ ch.toNat ≤ 0x39) := Iff.rfl
  have hlow : (0x61 ≤ ch ∧ ch ≤ 0x66) ↔ (0x61 ≤ ch.toNat ∧ ch.toNat ≤ 0x66) := Iff.rfl
  have hup : (0x41 ≤ ch ∧ ch ≤ 0x46) ↔ (0x41 ≤ ch.toNat ∧ ch.toNat ≤ 0x46) := Iff.rfl
  simp only [ipv6HexValue, digitOf, hdec, hlow, hup]
  by_cases h : 0x30 ≤ ch.toNat ∧ ch.toNat ≤ 0x39
  · simp only [if_pos h, Option.map_some]
    exact congrArg some (toNat_sub_of_le h.1)
  · simp only [if_neg h]
    by_cases h : 0x61 ≤ ch.toNat ∧ ch.toNat ≤ 0x66
    · simp only [if_pos h, Option.map_some]
      exact congrArg some (toNat_sub_add_ten h.1 h.2)
    · simp only [if_neg h]
      by_cases h : 0x41 ≤ ch.toNat ∧ ch.toNat ≤ 0x46
      · simp only [if_pos h, Option.map_some]
        exact congrArg some (toNat_sub_add_ten h.1 h.2)
      · simp only [if_neg h, Option.map_none]

/-- A digit is below 16. -/
theorem digitOf_lt (h : digitOf ch = some v) : v < 16 := by
  unfold digitOf at h
  by_cases hdec : 0x30 ≤ ch.toNat ∧ ch.toNat ≤ 0x39
  · rw [if_pos hdec, Option.some.injEq] at h
    omega
  · rw [if_neg hdec] at h
    by_cases hlow : 0x61 ≤ ch.toNat ∧ ch.toNat ≤ 0x66
    · rw [if_pos hlow, Option.some.injEq] at h
      omega
    · rw [if_neg hlow] at h
      by_cases hup : 0x41 ≤ ch.toNat ∧ ch.toNat ≤ 0x46
      · rw [if_pos hup, Option.some.injEq] at h
        omega
      · rw [if_neg hup] at h
        cases h

/-- A colon is no digit. -/
theorem digitOf_colon : digitOf colon = none := by decide

theorem ipv6HexValue_none (h : digitOf ch = none) : ipv6HexValue ch = none := by
  rw [← ipv6HexValue_eq] at h
  exact Option.map_eq_none_iff.mp h

theorem ipv6HexValue_some (h : digitOf ch = some v) :
    ∃ hex, ipv6HexValue ch = some hex ∧ hex.toNat = v := by
  rw [← ipv6HexValue_eq] at h
  exact Option.map_eq_some_iff.mp h

/-- Shifting a digit in does not overflow as long as at most four digits are read. -/
theorem toNat_shift_or {value hex : UInt32} (hvalue : value.toNat < 2 ^ 28)
    (hhex : hex.toNat < 16) :
    (value <<< 4 ||| hex).toNat = 16 * value.toNat + hex.toNat := by
  have hshift : (value <<< 4).toNat = value.toNat * 2 ^ 4 := by
    rw [UInt32.toNat_shiftLeft, Nat.shiftLeft_eq]
    change value.toNat * 2 ^ 4 % 2 ^ 32 = _
    exact Nat.mod_eq_of_lt (by omega)
  have hor := Nat.shiftLeft_add_eq_or_of_lt (show hex.toNat < 2 ^ 4 from hhex) value.toNat
  rw [Nat.shiftLeft_eq] at hor
  rw [UInt32.toNat_or, hshift, ← hor]
  omega

/-- One round of the loop over the digits of a group. -/
theorem ipv6Digits_digit (h : digitOf ch = some v) (p : List UInt8) {value : UInt32} {d : Nat}
    (hd : d < 4) (hvalue : value.toNat < 16 ^ d) :
    ∃ next : UInt32, next.toNat = 16 * value.toNat + v ∧
      ipv6Digits (ch :: p) value d = ipv6Digits p next (d + 1) := by
  obtain ⟨hex, hhex, hv⟩ := ipv6HexValue_some h
  have hsmall : value.toNat < 2 ^ 28 := by
    have hpow : 16 ^ d ≤ 16 ^ 3 := Nat.pow_le_pow_right (by omega) (by omega)
    omega
  have hlt := digitOf_lt h
  have hcolon : ch ≠ colon := by
    rintro rfl
    rw [digitOf_colon] at h
    cases h
  refine ⟨value <<< 4 ||| hex, ?_, ?_⟩
  · rw [toNat_shift_or hsmall (by omega), hv]
  · rw [ipv6Digits, if_neg hcolon, hhex]
    exact if_neg (by omega)

def Stops (rest : List UInt8) : Prop := ∀ ch ∈ rest.head?, ch = colon

/-- The digits of a group are read up to where it stops. -/
theorem ipv6Digits_append {g rest : List UInt8} (hg : ∀ ch ∈ g, (digitOf ch).isSome)
    (hrest : Stops rest) (value : UInt32) (d : Nat) (hlen : d + g.length ≤ 4)
    (hvalue : value.toNat < 16 ^ d) :
    ipv6Digits (g ++ rest) value d =
      some (UInt32.ofNat (digitsValue value.toNat g), d + g.length, rest) := by
  induction g generalizing value d with
  | nil =>
    have hself : UInt32.ofNat value.toNat = value := UInt32.ofNat_toNat
    cases rest with
    | nil => simp [ipv6Digits, digitsValue, hself]
    | cons ch rest =>
      rw [hrest ch rfl]
      simp [ipv6Digits, digitsValue, hself]
  | cons ch g ih =>
    rw [List.length_cons] at hlen
    obtain ⟨v, hv⟩ := Option.isSome_iff_exists.mp (hg ch List.mem_cons_self)
    obtain ⟨next, hnext, hstep⟩ := ipv6Digits_digit hv (g ++ rest) (show d < 4 by omega) hvalue
    have hlt := digitOf_lt hv
    have hfits : next.toNat < 16 ^ (d + 1) := by
      rw [hnext, pow_succ]
      omega
    rw [List.cons_append, hstep, ih (fun c hc => hg c (List.mem_cons_of_mem _ hc)) _ _ (by omega) hfits, hnext]
    simp only [digitsValue, List.foldl_cons, hv, Option.getD_some, List.length_cons]
    rw [show d + 1 + g.length = d + (g.length + 1) by omega]

/-- What the loop has consumed is a run of at most four digits. -/
theorem ipv6Digits_shape {value : UInt32} {d : Nat} {r : UInt32 × Nat × List UInt8} (hd : d ≤ 4)
    (h : ipv6Digits p value d = some r) :
    ∃ g, p = g ++ r.2.2 ∧ (∀ ch ∈ g, (digitOf ch).isSome) ∧ d + g.length ≤ 4 ∧ Stops r.2.2 := by
  induction p generalizing value d with
  | nil =>
    cases h
    exact ⟨[], by simp, by simp, by simpa using hd, by simp [Stops]⟩
  | cons ch p ih =>
    rw [ipv6Digits] at h
    by_cases hcolon : ch = colon
    · rw [if_pos hcolon] at h
      cases h
      exact ⟨[], by simp, by simp, by simpa using hd, by simp [Stops, hcolon]⟩
    · rw [if_neg hcolon] at h
      cases hv : digitOf ch with
      | none =>
        rw [ipv6HexValue_none hv] at h
        cases h
      | some v =>
        obtain ⟨hex, hhex, -⟩ := ipv6HexValue_some hv
        simp only [hhex] at h
        by_cases hfull : d ≥ 4
        · rw [if_pos hfull] at h
          cases h
        · rw [if_neg hfull] at h
          obtain ⟨g, hp, hg, hlen, hstops⟩ := ih (by omega) h
          refine ⟨ch :: g, by rw [hp, List.cons_append], ?_, ?_, hstops⟩
          · intro c hc
            rcases List.mem_cons.mp hc with rfl | hc
            · rw [hv]
              rfl
            · exact hg c hc
          · rw [List.length_cons]
            omega

/-- A whole group is read as its number. -/
theorem ipv6Digits_group {g rest : List UInt8} (hg : IsGroup g) (hrest : Stops rest) :
    ipv6Digits (g ++ rest) 0 0 = some (UInt32.ofNat (digitsValue 0 g), g.length, rest) := by
  have h := ipv6Digits_append hg.digits hrest 0 0 (by simpa using hg.length_le) (by decide)
  rw [Nat.zero_add] at h
  exact h

variable {g : List UInt8}

/-- The number of a group fits into 16 bits. -/
theorem groupWord_eq : (UInt32.ofNat (digitsValue 0 g)).toUInt16 = groupWord g := by
  apply UInt16.toNat.inj
  simp [groupWord]

theorem joinGroups_nil : joinGroups [] = [] := rfl

theorem joinGroups_singleton (g : List UInt8) : joinGroups [g] = g := List.intercalate_singleton

theorem joinGroups_cons_cons (g g' : List UInt8) (gs : List (List UInt8)) :
    joinGroups (g :: g' :: gs) = g ++ colon :: joinGroups (g' :: gs) := by
  unfold joinGroups
  rw [List.intercalate_cons_cons, List.append_assoc, List.singleton_append]

/-- A group starts with a character that is no colon. -/
theorem IsGroup.cons {g : List UInt8} (hg : IsGroup g) : ∃ ch p, g = ch :: p ∧ ch ≠ colon := by
  obtain ⟨ch, p, rfl⟩ := List.exists_cons_of_ne_nil hg.nonempty
  refine ⟨ch, p, rfl, ?_⟩
  rintro rfl
  have hdigit := hg.digits colon List.mem_cons_self
  rw [digitOf_colon] at hdigit
  exact absurd hdigit (by decide)

/-- So does a row of groups. -/
theorem joinGroups_cons (hg : IsGroup g) (gs : List (List UInt8)) :
    ∃ ch p, joinGroups (g :: gs) = ch :: p ∧ ch ≠ colon := by
  obtain ⟨ch, p, rfl, hch⟩ := hg.cons
  cases gs with
  | nil => exact ⟨ch, p, joinGroups_singleton _, hch⟩
  | cons g' gs => exact ⟨ch, p ++ colon :: joinGroups (g' :: gs), by rw [joinGroups_cons_cons, List.cons_append], hch⟩

theorem stops_nil : Stops [] := by simp [Stops]

theorem stops_colon (p : List UInt8) : Stops (colon :: p) := by simp [Stops]

section

variable {room : Nat} {words : List UInt16} {compressAt : Option Nat} {g : List UInt8}

theorem ipv6Groups_nil : ipv6Groups room [] words compressAt = some (words, compressAt) := by
  cases room <;> rfl

/-- The last group of a text, without a colon behind it. -/
theorem ipv6Groups_last (hg : IsGroup g) :
    ipv6Groups (room + 1) g words compressAt = some (words ++ [groupWord g], compressAt) := by
  have hdigits := ipv6Digits_group hg stops_nil
  obtain ⟨ch, p, rfl, -⟩ := hg.cons
  rw [List.append_nil] at hdigits
  rw [ipv6Groups, hdigits]
  dsimp only
  rw [if_neg (by simp), groupWord_eq]

/-- A group with a single colon behind it. -/
theorem ipv6Groups_next (hg : IsGroup g) (hch : ch ≠ colon) :
    ipv6Groups (room + 1) (g ++ colon :: ch :: p) words compressAt =
      ipv6Groups room (ch :: p) (words ++ [groupWord g]) compressAt := by
  have hdigits := ipv6Digits_group hg (stops_colon (ch :: p))
  obtain ⟨c, q, rfl, -⟩ := hg.cons
  rw [List.cons_append] at hdigits ⊢
  rw [ipv6Groups, hdigits]
  dsimp only
  rw [if_neg (by simp), if_neg hch, groupWord_eq]

/-- A group with a double colon behind it: the place is taken once only. -/
theorem ipv6Groups_compress (hg : IsGroup g) :
    ipv6Groups (room + 1) (g ++ colon :: colon :: p) words compressAt =
      if compressAt.isSome then none else ipv6Groups room p (words ++ [groupWord g])
        (some (words.length + 1)) := by
  have hdigits := ipv6Digits_group hg (stops_colon (colon :: p))
  obtain ⟨c, q, rfl, -⟩ := hg.cons
  rw [List.cons_append] at hdigits ⊢
  rw [ipv6Groups, hdigits]
  dsimp only
  rw [if_neg (by simp), if_pos rfl, groupWord_eq, List.length_append, List.length_singleton]

/-- A single colon at the end is refused. -/
theorem ipv6Groups_colon (hg : IsGroup g) :
    ipv6Groups (room + 1) (g ++ [colon]) words compressAt = none := by
  have hdigits := ipv6Digits_group hg (stops_colon [])
  obtain ⟨c, q, rfl, -⟩ := hg.cons
  rw [List.cons_append] at hdigits ⊢
  rw [ipv6Groups, hdigits]
  exact if_neg (by simp)

end

/-- A row of groups with room for all of them is read whole. -/
theorem ipv6Groups_joinGroups {gs : List (List UInt8)} (hgs : ∀ g ∈ gs, IsGroup g) {room : Nat}
    (hroom : gs.length ≤ room) (words : List UInt16) (compressAt : Option Nat) :
    ipv6Groups room (joinGroups gs) words compressAt =
      some (words ++ gs.map groupWord, compressAt) := by
  induction gs generalizing room words with
  | nil => rw [joinGroups_nil, ipv6Groups_nil, List.map_nil, List.append_nil]
  | cons g gs ih =>
    obtain ⟨room, rfl⟩ : ∃ k, room = k + 1 := ⟨room - 1, by rw [List.length_cons] at hroom; omega⟩
    have hg := hgs g List.mem_cons_self
    have hrest : ∀ g' ∈ gs, IsGroup g' := fun g' h => hgs g' (List.mem_cons_of_mem _ h)
    have hlen : gs.length ≤ room := by
      rw [List.length_cons] at hroom
      omega
    cases gs with
    | nil => rw [joinGroups_singleton, ipv6Groups_last hg, List.map_singleton]
    | cons g' gs =>
      obtain ⟨ch, p, hjoin, hch⟩ := joinGroups_cons (hrest g' List.mem_cons_self) gs
      have hread := ih hrest hlen (words ++ [groupWord g])
      rw [hjoin] at hread
      rw [joinGroups_cons_cons, hjoin, ipv6Groups_next hg hch, hread, List.append_assoc,
        List.singleton_append, ← List.map_cons]

theorem gapText_singleton (g : List UInt8) (ts : List (List UInt8)) :
    gapText [g] ts = g ++ colon :: colon :: joinGroups ts := by
  simp [gapText, joinGroups_singleton]

theorem gapText_cons_cons (g g' : List UInt8) (hs ts : List (List UInt8)) :
    gapText (g :: g' :: hs) ts = g ++ colon :: gapText (g' :: hs) ts := by
  simp [gapText, joinGroups_cons_cons]

/-- A text with groups in front of its gap starts with no colon. -/
theorem gapText_cons (hg : IsGroup g) (hs ts : List (List UInt8)) :
    ∃ ch p, gapText (g :: hs) ts = ch :: p ∧ ch ≠ colon := by
  obtain ⟨ch, p, hjoin, hch⟩ := joinGroups_cons hg hs
  exact ⟨ch, p ++ [colon, colon] ++ joinGroups ts, by simp [gapText, hjoin], hch⟩

/-- Groups on both sides of a gap are read, and the place of the gap is kept. -/
theorem ipv6Groups_gapText {hs ts : List (List UInt8)} (hhs : ∀ g ∈ hs, IsGroup g)
    (hts : ∀ g ∈ ts, IsGroup g) (hne : hs ≠ []) {room : Nat} (hroom : hs.length + ts.length ≤ room)
    (words : List UInt16) :
    ipv6Groups room (gapText hs ts) words none =
      some (words ++ hs.map groupWord ++ ts.map groupWord, some (words.length + hs.length)) := by
  induction hs generalizing room words with
  | nil => exact absurd rfl hne
  | cons g hs ih =>
    obtain ⟨room, rfl⟩ : ∃ k, room = k + 1 := ⟨room - 1, by rw [List.length_cons] at hroom; omega⟩
    have hg := hhs g List.mem_cons_self
    have hrest : ∀ g' ∈ hs, IsGroup g' := fun g' h => hhs g' (List.mem_cons_of_mem _ h)
    have hlen : hs.length + ts.length ≤ room := by
      rw [List.length_cons] at hroom
      omega
    cases hs with
    | nil =>
      rw [gapText_singleton, ipv6Groups_compress hg, Option.isSome_none, if_neg Bool.false_ne_true,
        ipv6Groups_joinGroups hts (by simpa using hlen)]
      simp
    | cons g' hs =>
      obtain ⟨ch, p, hgap, hch⟩ := gapText_cons (hrest g' List.mem_cons_self) hs ts
      have hread := ih hrest (List.cons_ne_nil _ _) hlen (words ++ [groupWord g])
      rw [hgap] at hread
      rw [gapText_cons_cons, hgap, ipv6Groups_next hg hch, hread]
      simp [Nat.add_comm, Nat.add_left_comm]

variable {words : List UInt16}

/-- What the loop accepts is a row of groups, or two rows with a gap. -/
theorem ipv6Groups_shape {room : Nat} {compressAt : Option Nat}
    {r : List UInt16 × Option Nat} (h : ipv6Groups room p words compressAt = some r) :
    (∃ gs, (∀ g ∈ gs, IsGroup g) ∧ gs.length ≤ room ∧ p = joinGroups gs) ∨
      compressAt = none ∧ ∃ hs ts, hs ≠ [] ∧ (∀ g ∈ hs, IsGroup g) ∧ (∀ g ∈ ts, IsGroup g) ∧
        hs.length + ts.length ≤ room ∧ p = gapText hs ts := by
  induction room generalizing p words compressAt with
  | zero =>
    cases p with
    | nil => exact .inl ⟨[], by simp, by simp, rfl⟩
    | cons ch p => cases h
  | succ room ih =>
    cases p with
    | nil => exact .inl ⟨[], by simp, by simp, rfl⟩
    | cons ch p =>
      cases hdigits : ipv6Digits (ch :: p) 0 0 with
      | none =>
        rw [ipv6Groups, hdigits] at h
        cases h
      | some d =>
        obtain ⟨g, hp, hg, hlen, hstops⟩ := ipv6Digits_shape (by omega) hdigits
        have hgroup : IsGroup g := by
          refine ⟨?_, by omega, hg⟩
          rintro rfl
          rw [List.nil_append] at hp
          have hempty := ipv6Digits_append (g := []) (by simp) hstops 0 0 (by simp) (by decide)
          rw [List.nil_append, ← hp] at hempty
          rw [ipv6Groups, hempty] at h
          cases h
        rw [hp] at h ⊢
        cases hrest : d.2.2 with
        | nil =>
          rw [List.append_nil]
          exact .inl ⟨[g], by simpa using hgroup, by simp, (joinGroups_singleton g).symm⟩
        | cons c rest =>
          rw [hrest] at h hstops
          obtain rfl : c = colon := hstops c rfl
          cases rest with
          | nil =>
            rw [ipv6Groups_colon hgroup] at h
            cases h
          | cons c rest =>
            by_cases hc : c = colon
            · subst hc
              rw [ipv6Groups_compress hgroup] at h
              cases compressAt with
              | some k =>
                rw [Option.isSome_some, if_pos rfl] at h
                cases h
              | none =>
                rw [Option.isSome_none, if_neg Bool.false_ne_true] at h
                obtain ⟨ts, hts, hlen, rfl⟩ | ⟨hnone, -⟩ := ih h
                · refine .inr ⟨rfl, [g], ts, by simp, by simpa using hgroup, hts, ?_,
                    (gapText_singleton g ts).symm⟩
                  rw [List.length_singleton]
                  omega
                · cases hnone
            · rw [ipv6Groups_next hgroup hc] at h
              obtain ⟨gs, hgs, hlen, hjoin⟩ | ⟨rfl, hs, ts, hne, hhs, hts, hlen, hgap⟩ := ih h
              · cases gs with
                | nil => cases hjoin
                | cons g' gs =>
                  refine .inl ⟨g :: g' :: gs, List.forall_mem_cons.mpr ⟨hgroup, hgs⟩,
                    by simpa using hlen, ?_⟩
                  rw [joinGroups_cons_cons, hjoin]
              · cases hs with
                | nil => exact absurd rfl hne
                | cons g' hs =>
                  refine .inr ⟨rfl, g :: g' :: hs, ts, by simp,
                    List.forall_mem_cons.mpr ⟨hgroup, hhs⟩, hts, ?_, ?_⟩
                  · simp only [List.length_cons] at hlen ⊢
                    omega
                  · rw [gapText_cons_cons, hgap]

/-- A text that starts with no colon goes straight to the groups. -/
theorem ipv6ReadGroups_of_ne (hch : ch ≠ colon) :
    ipv6ReadGroups (ch :: p) = ipv6Groups 8 (ch :: p) [] none := by
  cases p with
  | nil => exact if_neg hch
  | cons ch' p =>
    have hboth : ¬(ch = colon ∧ ch' = colon) := fun h => hch h.1
    unfold ipv6ReadGroups
    dsimp only
    rw [if_neg hboth, if_neg hch]

/-- A text without a gap. -/
theorem ipv6ReadGroups_full {gs : List (List UInt8)} (hgs : ∀ g ∈ gs, IsGroup g) (hne : gs ≠ [])
    (hlen : gs.length ≤ 8) :
    ipv6ReadGroups (joinGroups gs) = some (gs.map groupWord, none) := by
  have hread := ipv6Groups_joinGroups hgs hlen [] none
  cases gs with
  | nil => exact absurd rfl hne
  | cons g gs =>
    obtain ⟨ch, p, hjoin, hch⟩ := joinGroups_cons (hgs g List.mem_cons_self) gs
    rw [hjoin] at hread ⊢
    rw [ipv6ReadGroups_of_ne hch, hread, List.nil_append]

/-- A text with a gap, also one that starts with it. -/
theorem ipv6ReadGroups_gap {hs ts : List (List UInt8)} (hhs : ∀ g ∈ hs, IsGroup g)
    (hts : ∀ g ∈ ts, IsGroup g) (hlen : hs.length + ts.length ≤ 8) :
    ipv6ReadGroups (gapText hs ts) =
      some (hs.map groupWord ++ ts.map groupWord, some hs.length) := by
  cases hs with
  | nil =>
    have hread := ipv6Groups_joinGroups hts (by simpa using hlen) [] (some 0)
    have hgap : gapText [] ts = colon :: colon :: joinGroups ts := rfl
    rw [hgap]
    unfold ipv6ReadGroups
    dsimp only
    rw [if_pos ⟨rfl, rfl⟩, hread]
    rfl
  | cons g hs =>
    have hread := ipv6Groups_gapText hhs hts (List.cons_ne_nil g hs) hlen []
    obtain ⟨ch, p, hgap, hch⟩ := gapText_cons (hhs g List.mem_cons_self) hs ts
    rw [hgap] at hread ⊢
    rw [ipv6ReadGroups_of_ne hch, hread, List.nil_append, List.length_nil, Nat.zero_add]

/-- The texts that `ipv6_parse` can have read are these two kinds. -/
theorem ipv6ReadGroups_shape {r : List UInt16 × Option Nat} (h : ipv6ReadGroups s = some r) :
    (∃ gs, gs ≠ [] ∧ (∀ g ∈ gs, IsGroup g) ∧ gs.length ≤ 8 ∧ s = joinGroups gs) ∨
      ∃ hs ts, (∀ g ∈ hs, IsGroup g) ∧ (∀ g ∈ ts, IsGroup g) ∧ hs.length + ts.length ≤ 8 ∧
      s = gapText hs ts := by
  have hplain {ch : UInt8} {p : List UInt8} (hread : ipv6Groups 8 (ch :: p) [] none = some r) :
      (∃ gs, gs ≠ [] ∧ (∀ g ∈ gs, IsGroup g) ∧ gs.length ≤ 8 ∧ ch :: p = joinGroups gs) ∨
        ∃ hs ts, (∀ g ∈ hs, IsGroup g) ∧ (∀ g ∈ ts, IsGroup g) ∧ hs.length + ts.length ≤ 8 ∧ ch :: p = gapText hs ts := by
    obtain ⟨gs, hgs, hlen, hjoin⟩ | ⟨-, hs, ts, -, hhs, hts, hlen, hgap⟩ := ipv6Groups_shape hread
    · refine .inl ⟨gs, ?_, hgs, hlen, hjoin⟩
      rintro rfl
      cases hjoin
    · exact .inr ⟨hs, ts, hhs, hts, hlen, hgap⟩
  unfold ipv6ReadGroups at h
  match s with
  | [] => cases h
  | [ch] =>
    by_cases hch : ch = colon
    · simp only [if_pos hch] at h
      cases h
    · simp only [if_neg hch] at h
      exact hplain h
  | ch :: ch' :: p =>
    by_cases hboth : ch = colon ∧ ch' = colon
    · simp only [if_pos hboth] at h
      obtain ⟨rfl, rfl⟩ := hboth
      obtain ⟨ts, hts, hlen, rfl⟩ | ⟨hnone, -⟩ := ipv6Groups_shape h
      · exact .inr ⟨[], ts, by simp, hts, by simpa using hlen, rfl⟩
      · cases hnone
    · simp only [if_neg hboth] at h
      by_cases hch : ch = colon
      · simp only [if_pos hch] at h
        cases h
      · simp only [if_neg hch] at h
        exact hplain h

/-- The loop that moves the words behind the gap to the end. -/
theorem getElem?_moveWords {k zeros n : Nat} (hn : n + zeros ≤ words.length) (j : Nat) :
    (moveWords k zeros n words)[j]? = if k + zeros ≤ j ∧
      j < n + zeros then words[j - zeros]? else words[j]? := by
  induction n generalizing words with
  | zero =>
    rw [moveWords]
    exact (if_neg (by omega)).symm
  | succ i ih =>
    rw [moveWords]
    by_cases hk : k ≤ i
    · rw [if_pos hk, ih (by rw [List.length_set]; omega)]
      have hget : words.getD i 0 = getElem words i (by omega) := by
        rw [List.getD_eq_getElem?_getD, List.getElem?_eq_getElem (by omega), Option.getD_some]
      by_cases hj : k + zeros ≤ j ∧ j < i + zeros
      · rw [if_pos hj, if_pos (by omega), List.getElem?_set_ne (by omega)]
      · rw [if_neg hj]
        by_cases hlast : j = i + zeros
        · subst hlast
          rw [if_pos (by omega), List.getElem?_set_self (by omega), Nat.add_sub_cancel, hget,
            List.getElem?_eq_getElem (by omega)]
        · rw [if_neg (by omega), List.getElem?_set_ne (by omega)]
    · rw [if_neg hk]
      exact (if_neg (by omega)).symm

/-- The loop that fills the gap with zeros. -/
theorem getElem?_clearWords (i zeros : Nat) (words : List UInt16) (j : Nat) :
    (clearWords i zeros words)[j]? = if i ≤ j ∧
      j < i + zeros then words[j]?.map fun _ => 0 else words[j]? := by
  induction zeros generalizing i words with
  | zero =>
    rw [clearWords]
    exact (if_neg (by omega)).symm
  | succ zeros ih =>
    rw [clearWords, ih]
    by_cases hji : j = i
    · subst hji
      rw [if_neg (by omega), if_pos (by omega), List.getElem?_set_self']
      rfl
    · rw [List.getElem?_set_ne (Ne.symm hji)]
      by_cases hj : i + 1 ≤ j ∧ j < i + 1 + zeros
      · rw [if_pos hj, if_pos (by omega)]
      · rw [if_neg hj, if_neg (by omega)]

/-- Expanding puts zeros between the words before and behind the gap. -/
theorem ipv6Expand_gap (hs ts : List UInt16) (hlen : hs.length + ts.length ≤ 8) :
    ipv6Expand (hs ++ ts) (some hs.length) =
      some (hs ++ List.replicate (8 - (hs.length + ts.length)) 0 ++ ts) := by
  have hsmall : ¬(hs ++ ts).length > 8 := by
    rw [List.length_append]
    omega
  unfold ipv6Expand
  dsimp only
  rw [if_neg hsmall, List.length_append]
  obtain ⟨zeros, hzeros⟩ : ∃ zeros, zeros = 8 - (hs.length + ts.length) := ⟨_, rfl⟩
  rw [← hzeros]
  apply congrArg some
  apply List.ext_getElem?
  intro j
  rw [getElem?_clearWords, getElem?_moveWords (by simp [Nat.add_assoc])]
  rcases Nat.lt_or_ge j hs.length with hj | hj
  · rw [if_neg (by omega), if_neg (by omega), List.append_assoc, List.append_assoc,
      List.getElem?_append_left hj,
      List.getElem?_append_left hj]
  · rcases Nat.lt_or_ge j (hs.length + zeros) with hgap | hgap
    · have hright : (hs ++ List.replicate zeros 0 ++ ts)[j]? = some 0 := by
        rw [List.getElem?_append_left (by simpa using hgap), List.getElem?_append_right hj,
          List.getElem?_replicate_of_lt (by omega)]
      rw [if_pos ⟨hj, hgap⟩, if_neg (by omega), hright, List.getElem?_eq_getElem (by simp; omega)]
      rfl
    · have hright : (hs ++ List.replicate zeros 0 ++ ts)[j]? = ts[j - (hs.length + zeros)]? := by
        rw [List.getElem?_append_right (by simpa using hgap), List.length_append,
          List.length_replicate]
      rw [if_neg (by omega), hright]
      by_cases hend : j < hs.length + ts.length + zeros
      · rw [if_pos ⟨hgap, hend⟩, List.append_assoc, List.getElem?_append_right (by omega),
          List.getElem?_append_left (by omega),
          Nat.sub_sub, Nat.add_comm zeros]
      · rw [if_neg (fun h => hend h.2), List.getElem?_eq_none (by simp; omega), List.getElem?_eq_none (by omega)]

/-- Without a gap there have to be eight words. -/
theorem ipv6Expand_full (hlen : words.length = 8) : ipv6Expand words none = some words :=
  if_neg (not_not_intro hlen)

/-- `ipv6_parse` accepts exactly the texts that denote an address, and returns that address. -/
theorem ipv6Parse_iff (s : List UInt8) (ip : Ip) :
    ipv6Parse s = some ip ↔ ∃ words, Denotes 8 s words ∧ ip = ipv6Bytes words := by
  constructor
  · intro h
    unfold ipv6Parse at h
    cases hread : ipv6ReadGroups s with
    | none =>
      rw [hread] at h
      cases h
    | some r =>
      rw [hread] at h
      obtain ⟨words, hwords, rfl⟩ := Option.map_eq_some_iff.mp h
      obtain ⟨gs, hne, hgs, hlen, rfl⟩ | ⟨hs, ts, hhs, hts, hlen, rfl⟩ := ipv6ReadGroups_shape hread
      · rw [ipv6ReadGroups_full hgs hne hlen] at hread
        cases hread
        by_cases height : gs.length = 8
        · rw [ipv6Expand_full (by simpa using height)] at hwords
          cases hwords
          exact ⟨_, .full gs hgs height, rfl⟩
        · have hfalse : ipv6Expand (gs.map groupWord) none = none := if_pos (by simpa using height)
          rw [hfalse] at hwords
          cases hwords
      · rw [ipv6ReadGroups_gap hhs hts hlen] at hread
        cases hread
        have hexpand := ipv6Expand_gap (hs.map groupWord) (ts.map groupWord) (by simpa using hlen)
        rw [List.length_map, List.length_map] at hexpand
        rw [hexpand] at hwords
        cases hwords
        exact ⟨_, .gap hs ts hhs hts hlen, rfl⟩
  · rintro ⟨words, hdenotes, rfl⟩
    unfold ipv6Parse
    cases hdenotes with
    | full gs hgs hlen =>
      have hne : gs ≠ [] := List.ne_nil_of_length_pos (by omega)
      rw [ipv6ReadGroups_full hgs hne hlen.le]
      dsimp only
      rw [ipv6Expand_full (by simpa using hlen), Option.map_some]
    | gap hs ts hhs hts hlen =>
      rw [ipv6ReadGroups_gap hhs hts hlen]
      have hexpand := ipv6Expand_gap (hs.map groupWord) (ts.map groupWord) (by simpa using hlen)
      rw [List.length_map, List.length_map] at hexpand
      dsimp only
      rw [hexpand, Option.map_some]
      rfl

def hexText (w : UInt16) : List UInt8 :=
  let digits := [w >>> 12 &&& 0xF, w >>> 8 &&& 0xF, w >>> 4 &&& 0xF, w >>> 0 &&& 0xF]
  ((digits.take 3).dropWhile (· == 0) ++ digits.drop 3).map hexChar

def appendAll (outSize : Nat) (out chars : List UInt8) : List UInt8 :=
  chars.foldl (ipv6AppendChar outSize) out

theorem appendAll_append (outSize : Nat) (out a b : List UInt8) :
    appendAll outSize out (a ++ b) = appendAll outSize (appendAll outSize out a) b :=
  List.foldl_append ..

/-- What fits into the buffer is appended whole. -/
theorem appendAll_fits {outSize : Nat} (out : List UInt8) {chars : List UInt8}
    (h : out.length + chars.length < outSize) :
    appendAll outSize out chars = out ++ chars := by
  induction chars generalizing out with
  | nil => exact (List.append_nil out).symm
  | cons ch chars ih =>
    rw [List.length_cons] at h
    have hroom : out.length + 1 < outSize := by omega
    have hstep : ipv6AppendChar outSize out ch = out ++ [ch] := if_pos hroom
    unfold appendAll
    rw [List.foldl_cons, hstep]
    have hrest := ih (out ++ [ch]) (by rw [List.length_append, List.length_singleton]; omega)
    unfold appendAll at hrest
    rw [hrest, List.append_assoc, List.singleton_append]

/-- `ipv6_append_hex` writes a word in hexadecimal without leading zeros. -/
theorem ipv6AppendHex_eq (outSize : Nat) (out : List UInt8) (w : UInt16) :
    ipv6AppendHex outSize out w = appendAll outSize out (hexText w) := by
  unfold ipv6AppendHex hexText appendAll
  simp only [ipv6AppendDigits]
  by_cases h12 : w >>> 12 &&& 0xF = 0
  · by_cases h8 : w >>> 8 &&& 0xF = 0
    · by_cases h4 : w >>> 4 &&& 0xF = 0
      · simp [h12, h8, h4]
      · simp [h12, h8, h4]
    · simp [h12, h8]
  · simp [h12]

/-- The character of a digit is read back as this digit. -/
theorem digitOf_hexChar {d : UInt16} (h : d.toNat < 16) : digitOf (hexChar d) = some d.toNat := by
  have hall : ∀ n : Fin 16, digitOf (hexChar (UInt16.ofNat n.val)) = some n.val := by decide
  have hd := hall ⟨d.toNat, h⟩
  rw [UInt16.ofNat_toNat] at hd
  exact hd

/-- The characters of digits are read back as the number. -/
theorem digitsValue_hexChar {ds : List UInt16} (h : ∀ d ∈ ds, d.toNat < 16) (n : Nat) :
    digitsValue n (ds.map hexChar) = ds.foldl (fun n d => 16 * n + d.toNat) n := by
  induction ds generalizing n with
  | nil => rfl
  | cons d ds ih =>
    have hrest := ih (fun e he => h e (List.mem_cons_of_mem _ he)) (16 * n + d.toNat)
    unfold digitsValue at hrest ⊢
    rw [List.map_cons, List.foldl_cons, List.foldl_cons, digitOf_hexChar (h d List.mem_cons_self),
      Option.getD_some, hrest]

/-- Leading zeros do not change a number. -/
theorem foldl_dropWhile (ds es : List UInt16) :
    (ds.dropWhile (· == 0) ++ es).foldl (fun n d => 16 * n + d.toNat) 0 =
      (ds ++ es).foldl (fun n d => 16 * n + d.toNat) 0 := by
  induction ds with
  | nil => rfl
  | cons d ds ih =>
    by_cases hd : d = 0
    · subst hd
      rw [List.dropWhile_cons_of_pos (by decide), ih]
      rfl
    · rw [List.dropWhile_cons_of_neg (by simpa using hd)]

/-- Four bits of a word. -/
theorem toNat_nibble (w : UInt16) {shift : UInt16} (h : shift.toNat < 16) :
    (w >>> shift &&& 0xF).toNat = w.toNat / 2 ^ shift.toNat % 16 := by
  have hand := Nat.and_two_pow_sub_one_eq_mod (w.toNat >>> shift.toNat) 4
  rw [UInt16.toNat_and, UInt16.toNat_shiftRight, Nat.mod_eq_of_lt h, ← Nat.shiftRight_eq_div_pow]
  exact hand

theorem mem_hexDigits {w d : UInt16}
    (h : d ∈ [w >>> 12 &&& 0xF, w >>> 8 &&& 0xF, w >>> 4 &&& 0xF, w >>> 0 &&& 0xF]) :
    d.toNat < 16 := by
  have hnibble {shift : UInt16} (hshift : shift.toNat < 16) : (w >>> shift &&& 0xF).toNat < 16 := by
    rw [toNat_nibble w hshift]
    exact Nat.mod_lt _ (by omega)
  simp only [List.mem_cons, List.not_mem_nil, or_false] at h
  rcases h with rfl | rfl | rfl | rfl
  · exact hnibble (by decide)
  · exact hnibble (by decide)
  · exact hnibble (by decide)
  · exact hnibble (by decide)

/-- The text of a word is a group. -/
theorem isGroup_hexText (w : UInt16) : IsGroup (hexText w) := by
  refine ⟨by simp [hexText], ?_, ?_⟩
  · have hdrop := (List.dropWhile_sublist (· == 0) (l := [w >>> 12 &&& 0xF, w >>> 8 &&& 0xF, w >>> 4 &&& 0xF])).length_le
    simp only [hexText, List.length_map, List.length_append, List.take_succ_cons, List.take_zero,
      List.drop_succ_cons, List.drop_zero]
    simp only [List.length_cons, List.length_nil] at hdrop ⊢
    omega
  · intro ch hch
    obtain ⟨d, hd, rfl⟩ := List.mem_map.mp hch
    have hmem : d ∈ [w >>> 12 &&& 0xF, w >>> 8 &&& 0xF, w >>> 4 &&& 0xF, w >>> 0 &&& 0xF] := by
      rcases List.mem_append.mp hd with hd | hd
      · exact List.mem_of_mem_take (List.dropWhile_sublist _ |>.mem hd)
      · exact List.mem_of_mem_drop hd
    rw [digitOf_hexChar (mem_hexDigits hmem)]
    rfl

/-- The text of a word is read back as this word. -/
theorem groupWord_hexText (w : UInt16) : groupWord (hexText w) = w := by
  have hlt := w.toNat_lt
  have hdigits (d : UInt16)
      (hd : d ∈ ([w >>> 12 &&& 0xF, w >>> 8 &&& 0xF, w >>> 4 &&& 0xF].dropWhile (· == 0)) ++ [w >>> 0 &&& 0xF]) :
      d.toNat < 16 := by
    apply mem_hexDigits (w := w)
    rcases List.mem_append.mp hd with hd | hd
    · exact List.mem_of_mem_take (i := 3) (List.dropWhile_sublist _ |>.mem hd)
    · exact List.mem_of_mem_drop (i := 3) hd
  apply UInt16.toNat.inj
  have hvalue := digitsValue_hexChar hdigits 0
  rw [foldl_dropWhile] at hvalue
  simp only [List.cons_append, List.nil_append, List.foldl_cons, List.foldl_nil,
    toNat_nibble w (show (12 : UInt16).toNat < 16 by decide),
    toNat_nibble w (show (8 : UInt16).toNat < 16 by decide), toNat_nibble w (show (4 : UInt16).toNat < 16 by decide),
    toNat_nibble w (show (0 : UInt16).toNat < 16 by decide)] at hvalue
  have hword : digitsValue 0 (hexText w) = w.toNat := by
    refine hvalue.trans ?_
    change 16 * (16 * (16 * (16 * 0 + w.toNat / 2 ^ 12 % 16) + w.toNat / 2 ^ 8 % 16) + w.toNat / 2 ^ 4 % 16) +
      w.toNat / 2 ^ 0 % 16 = w.toNat
    omega
  unfold groupWord
  rw [hword, UInt16.ofNat_toNat]

theorem joinGroups_eq (g : List UInt8) (gs : List (List UInt8)) :
    joinGroups (g :: gs) = g ++ gs.flatMap fun g' => colon :: g' := by
  induction gs generalizing g with
  | nil => rw [joinGroups_singleton, List.flatMap_nil, List.append_nil]
  | cons g' gs ih => rw [joinGroups_cons_cons, ih, List.flatMap_cons, List.cons_append]

def colonWords (words : List UInt16) : List UInt8 := words.flatMap fun w => colon :: hexText w

/-- A row of words is the first one and the others with their colons. -/
theorem joinGroups_hexText (w : UInt16) (words : List UInt16) :
    joinGroups ((w :: words).map hexText) = hexText w ++ colonWords words := by
  rw [List.map_cons, joinGroups_eq, colonWords, List.flatMap_map]

section

variable {outSize : Nat} {words : List UInt16} {best : Best}

theorem getD_eq_getElem (h : i < words.length) : words.getD i 0 = words[i] := by
  rw [List.getD_eq_getElem?_getD, List.getElem?_eq_getElem h, Option.getD_some]

/-- A word outside the compressed run at a place where no colon is due. -/
theorem ipv6Emit_plain (hlen : words.length = 8) {rounds i : Nat} (hi : i < 8)
    (hstart : ∀ len, best ≠ some (i, len)) (hfirst : i = 0 ∨
      ∃ start len, best = some (start, len) ∧ i = start + len) (out : List UInt8) :
    ipv6Emit outSize words best (rounds + 1) i out =
      ipv6Emit outSize words best rounds (i + 1)
        (appendAll outSize out (hexText (getElem words i (by omega)))) := by
  have happend : appendAll outSize out (hexText (getElem words i (by omega))) =
      ipv6AppendHex outSize out (words.getD i 0) := by
    rw [ipv6AppendHex_eq, getD_eq_getElem]
  rw [happend]
  cases best with
  | none =>
    obtain hzero | ⟨start, len, hbest, -⟩ := hfirst
    · rw [ipv6Emit, if_pos hi]
      dsimp only
      rw [if_neg (by omega)]
    · cases hbest
  | some b =>
    obtain ⟨start, len⟩ := b
    have hne : i ≠ start := by
      rintro rfl
      exact hstart len rfl
    have hno : ¬(i > 0 ∧ i ≠ start + len) := by
      rintro ⟨hpos, hback⟩
      obtain hzero | ⟨start', len', hbest, hi'⟩ := hfirst
      · omega
      · cases hbest
        exact hback hi'
    rw [ipv6Emit, if_pos hi]
    dsimp only
    rw [if_neg hne, if_neg hno]

/-- A word outside the compressed run behind another one. -/
theorem ipv6Emit_colon (hlen : words.length = 8) {rounds i : Nat} (hi : i < 8)
    (hstart : ∀ len, best ≠ some (i, len)) (hpos : 0 < i)
    (hback : ∀ start len, best = some (start, len) → i ≠ start + len) (out : List UInt8) :
    ipv6Emit outSize words best (rounds + 1) i out =
      ipv6Emit outSize words best rounds (i + 1)
        (appendAll outSize out (colon :: hexText (getElem words i (by omega)))) := by
  have happend : appendAll outSize out (colon :: hexText (getElem words i (by omega))) =
      ipv6AppendHex outSize (ipv6AppendChar outSize out colon) (words.getD i 0) := by
    rw [ipv6AppendHex_eq, getD_eq_getElem]
    rfl
  rw [happend]
  cases best with
  | none =>
    rw [ipv6Emit, if_pos hi]
    dsimp only
    rw [if_pos hpos]
  | some b =>
    obtain ⟨start, len⟩ := b
    have hne : i ≠ start := by
      rintro rfl
      exact hstart len rfl
    rw [ipv6Emit, if_pos hi]
    dsimp only
    rw [if_neg hne, if_pos ⟨hpos, hback start len rfl⟩]

theorem ipv6Emit_end {rounds i : Nat} (hi : 8 ≤ i) (out : List UInt8) :
    ipv6Emit outSize words best rounds i out = out := by
  cases rounds with
  | zero => rfl
  | succ rounds => exact if_neg (by omega)

theorem colonWords_drop (hi : i < words.length) :
    colonWords (words.drop i) = (colon :: hexText words[i]) ++ colonWords (words.drop (i + 1)) := by
  rw [List.drop_eq_getElem_cons hi]
  rfl

/-- The words behind the compressed run. -/
theorem ipv6Emit_behind (hlen : words.length = 8) {rounds i : Nat} (hrounds : 8 ≤ i + rounds)
    (hpos : 0 < i) (hback : ∀ start len, best = some (start, len) → start + len < i)
    (out : List UInt8) :
    ipv6Emit outSize words best rounds i out =
      appendAll outSize out (colonWords (words.drop i)) := by
  induction rounds generalizing i out with
  | zero =>
    rw [List.drop_eq_nil_of_le (by omega)]
    rfl
  | succ rounds ih =>
    rcases Nat.lt_or_ge i 8 with hi | hi
    · have hstart (len : Nat) : best ≠ some (i, len) := by
        intro h
        have := hback i len h
        omega
      rw [ipv6Emit_colon hlen hi hstart hpos fun start len h => (hback start len h).ne',
        colonWords_drop (by omega), appendAll_append]
      apply ih (by omega) (by omega)
      intro start len h
      have := hback start len h
      omega
    · rw [ipv6Emit_end hi, List.drop_eq_nil_of_le (by omega)]
      rfl

/-- What the compressed run and the words behind it come to. -/
theorem ipv6Emit_tail (hlen : words.length = 8) {rounds start len : Nat}
    (hbest : best = some (start, len)) (hl : 2 ≤ len) (hrounds : 8 ≤ start + len + rounds)
    (out : List UInt8) :
    ipv6Emit outSize words best rounds (start + len) out =
      appendAll outSize out (joinGroups ((words.drop (start + len)).map hexText)) := by
  rcases Nat.lt_or_ge (start + len) 8 with hi | hi
  · obtain ⟨rounds, rfl⟩ : ∃ k, rounds = k + 1 := ⟨rounds - 1, by omega⟩
    have hstart (len' : Nat) : best ≠ some (start + len, len') := by
      rw [hbest]
      intro h
      have := congrArg Prod.fst (Option.some.inj h)
      dsimp only at this
      omega
    have hback (start' len' : Nat) (h : best = some (start', len')) : start' + len' < start + len + 1 := by
      rw [hbest] at h
      cases h
      omega
    have hrest (out : List UInt8) : ipv6Emit outSize words best rounds (start + len + 1) out =
        appendAll outSize out (colonWords (words.drop (start + len + 1))) :=
      ipv6Emit_behind hlen (by omega) (by omega) hback out
    have hdrop : words.drop (start + len) = getElem words (start + len) (by omega) :: words.drop (start + len + 1) :=
      List.drop_eq_getElem_cons (by omega)
    rw [ipv6Emit_plain hlen hi hstart (.inr ⟨start, len, hbest, rfl⟩), hrest, hdrop,
      joinGroups_hexText, appendAll_append]
  · rw [ipv6Emit_end hi, List.drop_eq_nil_of_le (by omega)]
    rfl

/-- The words up to the compressed run. -/
theorem ipv6Emit_front (hlen : words.length = 8) {rounds i start len : Nat}
    (hbest : best = some (start, len)) (hl : 2 ≤ len) (hfits : start + len ≤ 8)
    (hrounds : 8 ≤ i + rounds) (hi : i ≤ start) (hpos : 0 < i ∨ i = start) (out : List UInt8) :
    ipv6Emit outSize words best rounds i out =
      appendAll outSize out (colonWords ((words.drop i).take (start - i)) ++ [colon, colon] ++
        joinGroups ((words.drop (start + len)).map hexText)) := by
  induction rounds generalizing i out with
  | zero => omega
  | succ rounds ih =>
    by_cases hplace : i = start
    · subst hplace
      subst hbest
      rw [ipv6Emit, if_pos (by omega)]
      dsimp only
      rw [if_pos rfl, ipv6Emit_tail hlen rfl hl (by omega), Nat.sub_self, List.take_zero]
      rfl
    · have hstart (len' : Nat) : best ≠ some (i, len') := by
        rw [hbest]
        intro h
        exact hplace (congrArg Prod.fst (Option.some.inj h)).symm
      have hback (start' len' : Nat) (h : best = some (start', len')) : i ≠ start' + len' := by
        rw [hbest] at h
        cases h
        omega
      have htake : (words.drop i).take (start - i) =
          getElem words i (by omega) :: (words.drop (i + 1)).take (start - (i + 1)) := by
        rw [List.drop_eq_getElem_cons (by omega), show start - i = start - (i + 1) + 1 by omega,
          List.take_succ_cons]
      rw [ipv6Emit_colon hlen (by omega) hstart (by omega) hback,
        ih (by omega) (by omega) (by omega), htake, ← appendAll_append]
      simp only [colonWords, List.flatMap_cons, List.append_assoc]

structure ZeroRun (words : List UInt16) (start len : Nat) : Prop where
  two : 2 ≤ len
  inside : start + len ≤ 8
  zeros : words = words.take start ++ List.replicate len 0 ++ words.drop (start + len)

/-- The length that is counted at a place is that of a run of zeros there. -/
theorem zeroRun_spec (hlen : words.length = 8) (hi : i < 8) (htwo : 2 ≤ zeroRun words i) :
    ZeroRun words i (zeroRun words i) := by
  have hsplit := List.takeWhile_append_dropWhile (p := (· == 0)) (l := words.drop i)
  have hrep : (words.drop i).takeWhile (· == 0) = List.replicate (zeroRun words i) 0 := by
    rw [List.eq_replicate_iff]
    refine ⟨rfl, fun w hw => ?_⟩
    simpa using List.mem_takeWhile_imp hw
  rw [hrep] at hsplit
  have hle : zeroRun words i ≤ (words.drop i).length := (List.takeWhile_prefix _).length_le
  rw [List.length_drop, hlen] at hle
  have hdrop : words.drop (i + zeroRun words i) = (words.drop i).dropWhile (· == 0) := by
    rw [← List.drop_drop]
    conv_lhs => rw [← hsplit]
    rw [List.drop_left' (List.length_replicate)]
  refine ⟨htwo, by omega, ?_⟩
  rw [hdrop, List.append_assoc, hsplit, List.take_append_drop]

/-- The run that is chosen is a run of at least two zeros. -/
theorem bestRun_spec (hlen : words.length = 8) (rounds : Nat)
    (hbest : ∀ start len, best = some (start, len) → ZeroRun words start len) {start len : Nat}
    (h : bestRun words rounds i best = some (start, len)) : ZeroRun words start len := by
  induction rounds generalizing i best with
  | zero => exact hbest start len h
  | succ rounds ih =>
    rw [bestRun] at h
    by_cases hi : i < 8
    · rw [if_pos hi] at h
      refine ih (fun start' len' hnew => ?_) h
      by_cases hlonger : zeroRun words i ≥ 2 ∧ zeroRun words i > best.len
      · rw [if_pos hlonger] at hnew
        cases hnew
        exact zeroRun_spec hlen hi hlonger.1
      · rw [if_neg hlonger] at hnew
        exact hbest start' len' hnew
    · rw [if_neg hi] at h
      exact hbest start len h

end

theorem length_hexText_le (w : UInt16) : (hexText w).length ≤ 4 := (isGroup_hexText w).length_le

theorem length_colonWords_le (words : List UInt16) :
    (colonWords words).length ≤ 5 * words.length := by
  induction words with
  | nil => exact Nat.le_refl 0
  | cons w words ih =>
    have hw := length_hexText_le w
    simp only [colonWords, List.flatMap_cons, List.length_append, List.length_cons] at ih ⊢
    omega

/-- Eight groups and seven colons are at most 39 characters. -/
theorem length_joinGroups_le (words : List UInt16) :
    (joinGroups (words.map hexText)).length ≤ 5 * words.length - 1 := by
  cases words with
  | nil => exact Nat.le_refl 0
  | cons w words =>
    have hw := length_hexText_le w
    have hrest := length_colonWords_le words
    rw [joinGroups_hexText, List.length_append, List.length_cons]
    omega

theorem length_ipv6Words (ip : Ip) : (ipv6Words ip).length = 8 := by simp [ipv6Words]

theorem map_groupWord_hexText (words : List UInt16) :
    (words.map hexText).map groupWord = words := by
  rw [List.map_map]
  exact List.map_congr_left (fun w _ => groupWord_hexText w) |>.trans (List.map_id words)

theorem isGroup_of_mem_map (h : g ∈ words.map hexText) : IsGroup g := by
  obtain ⟨w, -, rfl⟩ := List.mem_map.mp h
  exact isGroup_hexText w

/-- An address without a run of zeros is written as a row of eight groups. -/
theorem ipv6Emit_none (hlen : words.length = 8) (outSize : Nat) :
    ipv6Emit outSize words none 8 0 [] = appendAll outSize [] (joinGroups (words.map hexText)) := by
  have hfirst : ipv6Emit outSize words none 8 0 [] =
      ipv6Emit outSize words none 7 1 (appendAll outSize [] (hexText (getElem words 0 (by omega)))) :=
    ipv6Emit_plain hlen (by omega) (fun _ h => by cases h) (.inl rfl) []
  have hwords : words = getElem words 0 (by omega) :: words.drop 1 := by
    rw [← List.drop_eq_getElem_cons, List.drop_zero]
  have hjoin : joinGroups (words.map hexText) = hexText (getElem words 0 (by omega)) ++
      colonWords (words.drop 1) := by
    rw [← joinGroups_hexText, ← hwords]
  rw [hfirst, hjoin, appendAll_append]
  exact ipv6Emit_behind hlen (by omega) (by omega) (fun _ _ h => by cases h) _

/-- An address with a run of zeros is written with a gap. -/
theorem ipv6Emit_some (hlen : words.length = 8) (outSize : Nat) {start len : Nat}
    (hrun : ZeroRun words start len) : ipv6Emit outSize words (some (start, len)) 8 0 [] =
      appendAll outSize [] (gapText ((words.take start).map hexText) ((words.drop (start + len)).map hexText)) := by
  have htwo := hrun.two
  have hinside := hrun.inside
  rcases Nat.eq_zero_or_pos start with rfl | hpos
  · exact ipv6Emit_front hlen rfl htwo hinside (by omega) (Nat.le_refl 0) (.inr rfl) []
  · have hfirst : ipv6Emit outSize words (some (start, len)) 8 0 [] =
        ipv6Emit outSize words (some (start, len)) 7 1 (appendAll outSize [] (hexText (getElem words 0 (by omega)))) := by
      apply ipv6Emit_plain hlen (by omega) _ (.inl rfl)
      intro len' h
      have hzero := congrArg Prod.fst (Option.some.inj h)
      dsimp only at hzero
      omega
    have hwords : words.take start = getElem words 0 (by omega) :: (words.drop 1).take (start - 1) := by
      conv_lhs => rw [← List.drop_zero (l := words), List.drop_eq_getElem_cons (by omega), show start = start - 1 + 1 by omega]
      rw [List.take_succ_cons]
    have hjoin : joinGroups ((words.take start).map hexText) =
        hexText (getElem words 0 (by omega)) ++ colonWords ((words.drop 1).take (start - 1)) := by
      rw [hwords, joinGroups_hexText]
    rw [hfirst, gapText, hjoin, List.append_assoc, List.append_assoc, appendAll_append,
      ← List.append_assoc]
    exact ipv6Emit_front hlen rfl htwo hinside (by omega) hpos (.inl Nat.one_pos) _

/-- The text of an address denotes this address, when the buffer has 40 bytes. -/
theorem ipv6ToText_denotes (ip : Ip) {outSize : Nat} (h : 40 ≤ outSize) :
    Denotes 7 (ipv6ToText ip outSize) (ipv6Words ip) := by
  have hlen := length_ipv6Words ip
  unfold ipv6ToText
  generalize ipv6Words ip = words at hlen ⊢
  dsimp only
  cases hbest : bestRun words 8 0 none with
  | none =>
    have hfit := length_joinGroups_le words
    have hdenotes : Denotes 7 (joinGroups (words.map hexText)) ((words.map hexText).map groupWord) :=
      .full _ (fun _ => isGroup_of_mem_map) (by rw [List.length_map, hlen])
    rw [map_groupWord_hexText] at hdenotes
    rw [ipv6Emit_none hlen, appendAll_fits [] (by rw [List.length_nil]; omega), List.nil_append]
    exact hdenotes
  | some b =>
    obtain ⟨start, len⟩ := b
    have hrun := bestRun_spec hlen 8 (fun _ _ hnone => by cases hnone) hbest
    have htwo := hrun.two
    have hinside := hrun.inside
    have hhead := length_joinGroups_le (words.take start)
    have htail := length_joinGroups_le (words.drop (start + len))
    rw [List.length_take] at hhead
    rw [List.length_drop] at htail
    have hfit : ([] : List UInt8).length +
        (gapText ((words.take start).map hexText) ((words.drop (start + len)).map hexText)).length < outSize := by
      simp only [gapText, List.length_append, List.length_cons, List.length_nil]
      omega
    have hdenotes : Denotes 7 (gapText ((words.take start).map hexText) ((words.drop (start + len)).map hexText))
        (gapWords ((words.take start).map hexText) ((words.drop (start + len)).map hexText)) :=
      .gap _ _ (fun _ => isGroup_of_mem_map) (fun _ => isGroup_of_mem_map)
        (by simp only [List.length_map, List.length_take, List.length_drop]; omega)
    have hwords : gapWords ((words.take start).map hexText) ((words.drop (start + len)).map hexText) = words := by
      have hzeros : 8 - (min start 8 + (8 - (start + len))) = len := by omega
      unfold gapWords
      rw [map_groupWord_hexText, map_groupWord_hexText, List.length_map, List.length_map,
        List.length_take, List.length_drop, hlen,
        hzeros]
      exact hrun.zeros.symm
    rw [hwords] at hdenotes
    rw [ipv6Emit_some hlen outSize hrun, appendAll_fits [] hfit, List.nil_append]
    exact hdenotes

theorem toNat_word (a b : UInt8) :
    (a.toUInt16 <<< 8 ||| b.toUInt16).toNat = 256 * a.toNat + b.toNat := by
  have ha := a.toNat_lt
  have hb : b.toNat < 2 ^ 8 := b.toNat_lt
  have hshift : (a.toUInt16 <<< 8).toNat = a.toNat * 2 ^ 8 := by
    rw [UInt16.toNat_shiftLeft, UInt8.toNat_toUInt16, Nat.shiftLeft_eq]
    change a.toNat * 2 ^ 8 % 2 ^ 16 = _
    exact Nat.mod_eq_of_lt (by omega)
  have hor := Nat.shiftLeft_add_eq_or_of_lt hb a.toNat
  rw [Nat.shiftLeft_eq] at hor
  rw [UInt16.toNat_or, hshift, UInt8.toNat_toUInt16, ← hor]
  omega

theorem word_high (a b : UInt8) : ((a.toUInt16 <<< 8 ||| b.toUInt16) >>> 8).toUInt8 = a := by
  have ha := a.toNat_lt
  have hb := b.toNat_lt
  apply UInt8.toNat.inj
  rw [UInt16.toNat_toUInt8, UInt16.toNat_shiftRight, toNat_word]
  change (256 * a.toNat + b.toNat) >>> 8 % 256 = a.toNat
  rw [Nat.shiftRight_eq_div_pow]
  omega

theorem word_low (a b : UInt8) : (a.toUInt16 <<< 8 ||| b.toUInt16).toUInt8 = b := by
  have hb := b.toNat_lt
  apply UInt8.toNat.inj
  rw [UInt16.toNat_toUInt8, toNat_word]
  omega

/-- The bytes of the words of an address are the address. -/
theorem ipv6Bytes_ipv6Words (ip : Ip) : ipv6Bytes (ipv6Words ip) = ip := by
  funext i
  have hget : (ipv6Words ip).getD (i.val / 2) 0 =
      (ip ⟨2 * (i.val / 2), by omega⟩).toUInt16 <<< 8 ||| (ip ⟨2 * (i.val / 2) + 1, by omega⟩).toUInt16 := by
    rw [getD_eq_getElem (by rw [length_ipv6Words]; omega)]
    simp only [ipv6Words, List.getElem_map, List.getElem_finRange]
    rfl
  unfold ipv6Bytes
  rw [hget]
  by_cases heven : i.val % 2 = 0
  · rw [if_pos heven, word_high]
    exact congrArg ip (Fin.ext (by dsimp only; omega))
  · rw [if_neg heven, word_low]
    exact congrArg ip (Fin.ext (by dsimp only; omega))

def IsAddress (s : List UInt8) (ip : Ip) : Prop := ∃ words, Denotes 7 s words ∧ ip = ipv6Bytes words

def EightWithGap (s : List UInt8) : Prop :=
  ∃ hs ts, (∀ g ∈ hs, IsGroup g) ∧ (∀ g ∈ ts, IsGroup g) ∧ hs.length + ts.length = 8 ∧ s = gapText hs ts

/-- More groups than needed may be allowed beside a gap. -/
theorem Denotes.mono {most most' : Nat} (hle : most ≤ most') (h : Denotes most s words) :
    Denotes most' s words := by
  cases h with
  | full gs hgs hlen => exact .full gs hgs hlen
  | gap hs ts hhs hts hlen => exact .gap hs ts hhs hts (hlen.trans hle)

/-- Eight groups and a gap are no address in the text form. -/
theorem EightWithGap.not_denotes (h : EightWithGap s) (words : List UInt16) :
    ¬ Denotes 7 s words := by
  obtain ⟨hs, ts, hhs, hts, hlen, rfl⟩ := h
  have hread := ipv6ReadGroups_gap hhs hts hlen.le
  intro hdenotes
  generalize hs' : gapText hs ts = s at hread hdenotes
  cases hdenotes with
  | full gs hgs height =>
    rw [ipv6ReadGroups_full hgs (List.ne_nil_of_length_pos (by omega)) height.le] at hread
    cases congrArg Prod.snd (Option.some.inj hread)
  | gap hs' ts' hhs' hts' hlen' =>
    rw [ipv6ReadGroups_gap hhs' hts' (by omega)] at hread
    have hwords := congrArg List.length (congrArg Prod.fst (Option.some.inj hread))
    simp only [List.length_append, List.length_map] at hwords
    omega

/-- Every address is read back from its text.  A text is accepted just when it is an address in the
form of the RFC, with that address, unless it has eight groups and `::`, which stands for no group
then. -/
theorem ipv6_text_form (ip : Ip) (outSize : Nat) (s : List UInt8) :
    (40 ≤ outSize → ipv6Parse (ipv6ToText ip outSize) = some ip) ∧
      ((∀ ip, ipv6Parse s = some ip ↔ IsAddress s ip) ↔ ¬ EightWithGap s) := by
  constructor
  · intro h
    rw [ipv6Parse_iff]
    exact ⟨_, (ipv6ToText_denotes ip h).mono (by omega), (ipv6Bytes_ipv6Words ip).symm⟩
  · constructor
    · intro h hgap
      have hnot := hgap.not_denotes
      obtain ⟨hs, ts, hhs, hts, hlen, rfl⟩ := hgap
      have haccepts := (ipv6Parse_iff _ _).mpr ⟨_, .gap hs ts hhs hts hlen.le, rfl⟩
      obtain ⟨words, hdenotes, -⟩ := (h _).mp haccepts
      exact hnot words hdenotes
    · intro hno ip
      rw [ipv6Parse_iff]
      constructor
      · rintro ⟨words, hdenotes, rfl⟩
        cases hdenotes with
        | full gs hgs hlen => exact ⟨_, .full gs hgs hlen, rfl⟩
        | gap hs ts hhs hts hlen =>
          have hne : hs.length + ts.length ≠ 8 := fun height => hno ⟨hs, ts, hhs, hts, height, rfl⟩
          exact ⟨_, .gap hs ts hhs hts (by omega), rfl⟩
      · rintro ⟨words, hdenotes, hip⟩
        exact ⟨words, hdenotes.mono (by omega), hip⟩

def loopback : Ip := fun i => if i.val = 15 then 1 else 0

/-- The loopback address is written as `::1` and read back. -/
theorem ipv6Parse_loopback :
    ipv6Parse (ipv6ToText loopback 40) = some loopback ∧
      ipv6ToText loopback 40 = [0x3A, 0x3A, 0x31] :=
  ⟨(ipv6_text_form loopback 40 []).1 (by decide), by decide⟩

def eightAndGap : List UInt8 :=
  [0x31, 0x3A, 0x32, 0x3A, 0x33, 0x3A, 0x34, 0x3A, 0x35, 0x3A, 0x36, 0x3A, 0x37, 0x3A, 0x38, 0x3A, 0x3A]

/-- The code accepts eight groups with a gap that stands for none. -/
theorem ipv6Parse_eightAndGap :
    (ipv6Parse eightAndGap).isSome ∧ ¬ ∃ ip, IsAddress eightAndGap ip := by
  have hgap : EightWithGap eightAndGap :=
    ⟨[[0x31], [0x32], [0x33], [0x34], [0x35], [0x36], [0x37], [0x38]], [],
      fun g hg => by
        simp only [List.mem_cons, List.not_mem_nil, or_false] at hg
        rcases hg with rfl | rfl | rfl | rfl | rfl | rfl | rfl | rfl <;> exact ⟨by simp, by simp, by simp [digitOf]⟩,
      by simp, rfl, rfl⟩
  refine ⟨by decide, ?_⟩
  rintro ⟨ip, words, hdenotes, -⟩
  exact hgap.not_denotes words hdenotes

end Monios.Analysis.Ipv6Text
