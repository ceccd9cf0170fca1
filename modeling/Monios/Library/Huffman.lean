import Mathlib.Algebra.Order.Ring.Nat
import Mathlib.Algebra.BigOperators.Group.List.Basic
import Mathlib.Data.List.Count

/-!
# Numbers as strings of bits

A number in a fixed number of bits, with the lowest bit first or with the highest bit first, and a
list of bytes as the string of their bits, the lowest bit of every byte first. Both ways of writing
a number down are one to one (`bitsLE_inj`), and the low bits come apart from the high ones
(`bitsLE_add`, `bitsBE_succ`).
-/

set_option autoImplicit false

namespace Monios.Library

def bitsLE : Nat → Nat → List Bool
  | _, 0 => []
  | v, n + 1 => decide (v % 2 = 1) :: bitsLE (v / 2) n

def bitsBE : Nat → Nat → List Bool
  | _, 0 => []
  | v, n + 1 => decide (v / 2 ^ n % 2 = 1) :: bitsBE v n

def bytesBits (bytes : List UInt8) : List Bool := bytes.flatMap fun b => bitsLE b.toNat 8

/-- As many bits as asked for. -/
@[simp] theorem length_bitsLE (v n : Nat) : (bitsLE v n).length = n := by
  induction n generalizing v with
  | zero => rfl
  | succ n ih => simp [bitsLE, ih]

/-- No bytes, no bits. -/
@[simp] theorem bytesBits_nil : bytesBits [] = [] := rfl

/-- The bits of the first byte come first. -/
@[simp] theorem bytesBits_cons (b : UInt8) (bytes : List UInt8) :
    bytesBits (b :: bytes) = bitsLE b.toNat 8 ++ bytesBits bytes := rfl

/-- The bits of one list behind those of the other. -/
@[simp] theorem bytesBits_append (bytes more : List UInt8) :
    bytesBits (bytes ++ more) = bytesBits bytes ++ bytesBits more :=
  List.flatMap_append

/-- Eight bits a byte. -/
@[simp] theorem length_bytesBits (bytes : List UInt8) :
    (bytesBits bytes).length = 8 * bytes.length := by
  induction bytes with
  | nil => rfl
  | cons b bytes ih =>
    rw [bytesBits_cons, List.length_append, ih, length_bitsLE, List.length_cons]
    omega

/-- The last bit decides the number modulo 2. -/
theorem decide_mod_two_inj {v w : Nat} (h : decide (v % 2 = 1) = decide (w % 2 = 1)) :
    v % 2 = w % 2 := by
  rw [decide_eq_decide] at h
  omega

/-- Small numbers with the same bits are equal. -/
theorem bitsLE_inj {n v w : Nat} (hv : v < 2 ^ n) (hw : w < 2 ^ n) (h : bitsLE v n = bitsLE w n) :
    v = w := by
  induction n generalizing v w with
  | zero =>
    rw [pow_zero] at hv hw
    omega
  | succ n ih =>
    obtain ⟨hbit, hrest⟩ := List.cons.inj h
    have hlow := decide_mod_two_inj hbit
    rw [pow_succ] at hv hw
    have hhigh := ih (by omega) (by omega) hrest
    omega

/-- The low bits and the high bits. -/
theorem bitsLE_add (v m n : Nat) :
    bitsLE v (m + n) = bitsLE (v % 2 ^ m) m ++ bitsLE (v / 2 ^ m) n := by
  induction m generalizing v with
  | zero => simp [bitsLE]
  | succ m ih =>
    have hbit : v % 2 ^ (m + 1) % 2 = v % 2 := Nat.mod_mod_of_dvd v (Dvd.intro_left (2 ^ m) rfl)
    have hhalf : v % 2 ^ (m + 1) / 2 = v / 2 % 2 ^ m := by
      rw [pow_succ, mul_comm, Nat.mod_mul_right_div_self]
    have hhigh : v / 2 ^ (m + 1) = v / 2 / 2 ^ m := by
      rw [pow_succ, mul_comm, Nat.div_div_eq_div_mul]
    rw [Nat.add_right_comm, bitsLE, bitsLE, ih (v / 2), hbit, hhalf, hhigh, List.cons_append]

/-- A number put on top of another. -/
theorem bitsLE_append {v m : Nat} (hv : v < 2 ^ m) (w n : Nat) :
    bitsLE (v + w * 2 ^ m) (m + n) = bitsLE v m ++ bitsLE w n := by
  rw [bitsLE_add, Nat.add_mul_mod_self_right, Nat.mod_eq_of_lt hv,
    Nat.add_mul_div_right _ _ (Nat.two_pow_pos m),
    Nat.div_eq_of_lt hv, Nat.zero_add]

/-- Bits that start with whole bytes come from these bytes. -/
theorem eq_append_of_bytesBits {bytes start : List UInt8} {rest : List Bool}
    (h : bytesBits bytes = bytesBits start ++ rest) :
    ∃ tail, bytes = start ++ tail ∧ bytesBits tail = rest := by
  induction start generalizing bytes with
  | nil => exact ⟨bytes, rfl, h⟩
  | cons b start ih =>
    cases bytes with
    | nil =>
      rw [bytesBits_cons, bytesBits_nil] at h
      have hlen := congrArg List.length h
      rw [List.length_append, List.length_append, length_bitsLE, List.length_nil] at hlen
      omega
    | cons c bytes =>
      rw [bytesBits_cons, bytesBits_cons, List.append_assoc] at h
      obtain ⟨hfirst, hrest⟩ := List.append_inj h (by rw [length_bitsLE, length_bitsLE])
      have hbyte : c = b := UInt8.toNat_inj.mp (bitsLE_inj c.toNat_lt b.toNat_lt hfirst)
      obtain ⟨tail, htail, hbits⟩ := ih hrest
      exact ⟨tail, by rw [hbyte, htail, List.cons_append], hbits⟩

/-- The highest bit first. -/
theorem bitsBE_succ (v n : Nat) : bitsBE v (n + 1) = decide (v / 2 ^ n % 2 = 1) :: bitsBE v n := rfl

/-- A quotient and its last bit. -/
theorem div_two_pow_succ (v n : Nat) : v / 2 ^ n = 2 * (v / 2 ^ (n + 1)) + v / 2 ^ n % 2 := by
  have hdiv : v / 2 ^ (n + 1) = v / 2 ^ n / 2 := by
    rw [pow_succ, Nat.div_div_eq_div_mul]
  rw [hdiv]
  omega

end Monios.Library

/-!
# Canonical prefix codes

A code is given by the list of the lengths of its words, one for each symbol, zero for a symbol that
is not used. The words of one length are consecutive numbers in the order of the symbols, and the
first word of a length follows the last word of the length before, with a zero bit at its end.
-/

namespace Monios.Library.Huffman

def codes (lengths : List Nat) (len : Nat) : Nat := if len = 0 then 0 else lengths.count len

def firstCode (lengths : List Nat) : Nat → Nat
  | 0 => 0
  | len + 1 => (firstCode lengths len + codes lengths len) * 2

def shorter (lengths : List Nat) : Nat → Nat
  | 0 => 0
  | len + 1 => shorter lengths len + codes lengths len

def codeLength (lengths : List Nat) (sym : Nat) : Nat := lengths.getD sym 0

def rank (lengths : List Nat) (sym : Nat) : Nat := (lengths.take sym).count (codeLength lengths sym)

def codeOf (lengths : List Nat) (sym : Nat) : Nat :=
  firstCode lengths (codeLength lengths sym) + rank lengths sym

def codeBits (lengths : List Nat) (sym : Nat) : List Bool :=
  bitsBE (codeOf lengths sym) (codeLength lengths sym)

def cost (width len : Nat) : Nat := if 0 < len ∧ len ≤ width then 2 ^ (width - len) else 0

def kraft (lengths : List Nat) (width : Nat) : Nat := (lengths.map (cost width)).sum

structure Valid (lengths : List Nat) (maxBits : Nat) : Prop where
  le : ∀ len ∈ lengths, len ≤ maxBits
  kraft : kraft lengths maxBits ≤ 2 ^ maxBits

/-! ## The inequality of Kraft -/

/-- Every width doubles the cost. -/
theorem cost_succ (width len : Nat) :
    cost (width + 1) len = 2 * cost width len + if len = width + 1 then 1 else 0 := by
  unfold cost
  by_cases hlast : len = width + 1
  · rw [if_pos hlast, if_pos (by omega), if_neg (by omega), hlast, Nat.sub_self, pow_zero,
      Nat.mul_zero, Nat.zero_add]
  · rw [if_neg hlast]
    by_cases hlen : 0 < len ∧ len ≤ width
    · rw [if_pos hlen, if_pos (by omega), show width + 1 - len = width - len + 1 by omega,
        pow_succ, mul_comm, Nat.add_zero]
    · rw [if_neg hlen, if_neg (by omega)]

/-- Every width doubles the sum of Kraft. -/
theorem kraft_succ (lengths : List Nat) (width : Nat) :
    kraft lengths (width + 1) = 2 * kraft lengths width + codes lengths (width + 1) := by
  have hcount : codes lengths (width + 1) = lengths.count (width + 1) :=
    if_neg (Nat.succ_ne_zero width)
  rw [hcount]
  unfold kraft
  induction lengths with
  | nil => rfl
  | cons len lengths ih =>
    rw [List.map_cons, List.map_cons, List.sum_cons, List.sum_cons, List.count_cons,
      ih (if_neg (Nat.succ_ne_zero width)), cost_succ]
    by_cases hlen : len = width + 1
    · simp only [hlen, beq_self_eq_true, if_true]
      omega
    · simp only [hlen, beq_iff_eq, if_false]
      omega

/-- The sum of Kraft starts at 0. -/
theorem kraft_zero (lengths : List Nat) : kraft lengths 0 = 0 := by
  have hcost (len : Nat) : cost 0 len = 0 := if_neg (by omega)
  unfold kraft
  induction lengths with
  | nil => rfl
  | cons len lengths ih => rw [List.map_cons, List.sum_cons, ih, hcost]

/-- Behind the codes of a length the sum of Kraft is reached. -/
theorem firstCode_add_codes (lengths : List Nat) (len : Nat) :
    firstCode lengths len + codes lengths len = kraft lengths len := by
  induction len with
  | zero => rw [kraft_zero, firstCode, codes, if_pos rfl]
  | succ len ih =>
    rw [kraft_succ, firstCode, ih]
    omega

/-- Longer codes start behind the shorter ones. -/
theorem firstCode_mul_le (lengths : List Nat) {len more : Nat} (hmore : 0 < more) :
    (firstCode lengths len + codes lengths len) * 2 ^ more ≤ firstCode lengths (len + more) := by
  induction more with
  | zero => cases hmore
  | succ more ih =>
    by_cases hzero : more = 0
    · subst hzero
      exact Nat.le_of_eq (by rw [Nat.zero_add, pow_one, firstCode])
    · have hle := ih (Nat.pos_of_ne_zero hzero)
      rw [← Nat.add_assoc, firstCode, pow_succ, ← mul_assoc]
      exact Nat.mul_le_mul_right 2 (hle.trans (Nat.le_add_right _ _))

section

variable {lengths : List Nat} {maxBits : Nat}

/-- The inequality of Kraft holds for larger widths too. -/
theorem Valid.mono (h : Valid lengths maxBits) {bits : Nat} (hle : maxBits ≤ bits) :
    Valid lengths bits := by
  induction bits, hle using Nat.le_induction with
  | base => exact h
  | succ bits hle ih =>
    have hnone : codes lengths (bits + 1) = 0 := by
      unfold codes
      rw [if_neg (Nat.succ_ne_zero bits), List.count_eq_zero]
      intro hmem
      have := h.le _ hmem
      omega
    refine ⟨fun len hlen => (ih.le len hlen).trans (Nat.le_succ bits), ?_⟩
    have hkraft := ih.kraft
    rw [kraft_succ, hnone, pow_succ]
    omega

/-- The codes of a length fit into it. -/
theorem firstCode_add_codes_le (h : Valid lengths maxBits) {len : Nat} (hlen : len ≤ maxBits) :
    firstCode lengths len + codes lengths len ≤ 2 ^ len := by
  by_cases heq : len = maxBits
  · subst heq
    rw [firstCode_add_codes]
    exact h.kraft
  · obtain ⟨more, rfl⟩ := Nat.exists_eq_add_of_lt (Nat.lt_of_le_of_ne hlen heq)
    have hle := @firstCode_mul_le lengths len (more + 1) (Nat.succ_pos more)
    have hfirst : firstCode lengths (len + (more + 1)) ≤ kraft lengths (len + (more + 1)) := by
      rw [← firstCode_add_codes]
      exact Nat.le_add_right _ _
    have hall : (firstCode lengths len + codes lengths len) * 2 ^ (more + 1) ≤
        2 ^ len * 2 ^ (more + 1) := by
      rw [← pow_add]
      exact hle.trans (hfirst.trans h.kraft)
    exact Nat.le_of_mul_le_mul_right hall (Nat.two_pow_pos _)

variable {sym : Nat}

/-- A symbol with a code is in the table. -/
theorem lt_length_of_used (hsym : 0 < codeLength lengths sym) : sym < lengths.length := by
  by_contra hge
  unfold codeLength at hsym
  rw [List.getD_eq_getElem?_getD, List.getElem?_eq_none (Nat.le_of_not_lt hge)] at hsym
  exact absurd hsym (Nat.lt_irrefl 0)

/-- The length of a symbol is its entry. -/
theorem codeLength_eq_getElem (hlt : sym < lengths.length) :
    codeLength lengths sym = lengths[sym] := by
  unfold codeLength
  rw [List.getD_eq_getElem?_getD, List.getElem?_eq_getElem hlt, Option.getD_some]

/-- The rank of a symbol is below the number of its length. -/
theorem rank_lt (hsym : 0 < codeLength lengths sym) :
    rank lengths sym < codes lengths (codeLength lengths sym) := by
  have hlt := lt_length_of_used hsym
  have hget := codeLength_eq_getElem hlt
  have hsplit : lengths.take sym ++ lengths[sym] :: lengths.drop (sym + 1) = lengths := by
    rw [List.getElem_cons_drop, List.take_append_drop]
  have hcount : (lengths.take sym).count lengths[sym] + ((lengths.drop (sym + 1)).count lengths[sym] + 1) =
      lengths.count lengths[sym] := by
    rw [← List.count_cons_self, ← List.count_append, hsplit]
  unfold rank codes
  rw [if_neg hsym.ne', hget]
  omega

/-- The code of a symbol is below the end of its length. -/
theorem codeOf_lt_end (hsym : 0 < codeLength lengths sym) :
    codeOf lengths sym < firstCode lengths (codeLength lengths sym) +
      codes lengths (codeLength lengths sym) :=
  Nat.add_lt_add_left (rank_lt hsym) _

/-- No length exceeds the largest. -/
theorem codeLength_le (h : Valid lengths maxBits) (sym : Nat) :
    codeLength lengths sym ≤ maxBits := by
  unfold codeLength
  rw [List.getD_eq_getElem?_getD]
  cases hget : lengths[sym]? with
  | none => exact Nat.zero_le _
  | some len => exact h.le len (List.mem_of_getElem? hget)

/-- A code fits into its length. -/
theorem codeOf_lt (h : Valid lengths maxBits) (hsym : 0 < codeLength lengths sym) :
    codeOf lengths sym < 2 ^ codeLength lengths sym :=
  (codeOf_lt_end hsym).trans_le (firstCode_add_codes_le h (codeLength_le h sym))

/-- A longer code starts behind the shorter ones. -/
theorem le_codeOf_div {len more : Nat} (hlen : codeLength lengths sym = len + more)
    (hmore : 0 < more) :
    firstCode lengths len + codes lengths len ≤ codeOf lengths sym / 2 ^ more := by
  rw [Nat.le_div_iff_mul_le (Nat.two_pow_pos more)]
  have hle := @firstCode_mul_le lengths len more hmore
  rw [← hlen] at hle
  exact hle.trans (Nat.le_add_right _ _)

end

/-- The places of a length lie in front of those of longer ones. -/
theorem shorter_add_codes_le (lengths : List Nat) {len more : Nat} (hmore : 0 < more) :
    shorter lengths len + codes lengths len ≤ shorter lengths (len + more) := by
  induction more with
  | zero => cases hmore
  | succ more ih =>
    by_cases hzero : more = 0
    · subst hzero
      exact Nat.le_refl _
    · exact (ih (Nat.pos_of_ne_zero hzero)).trans (Nat.le_add_right _ _)

/-- The places stay inside the table. -/
theorem shorter_add_codes_le_length (lengths : List Nat) (len : Nat) :
    shorter lengths len + codes lengths len ≤ lengths.length := by
  have hcount (len : Nat) : shorter lengths len + codes lengths len = lengths.countP fun l => decide (0 < l ∧ l ≤ len) := by
    induction len with
    | zero =>
      rw [shorter, codes, if_pos rfl, eq_comm, List.countP_eq_zero]
      intro l _ hl
      have := of_decide_eq_true hl
      omega
    | succ len ih =>
      rw [shorter, ih, codes, if_neg (Nat.succ_ne_zero len)]
      clear ih
      induction lengths with
      | nil => rfl
      | cons l lengths ih =>
        rw [List.countP_cons, List.count_cons, List.countP_cons, ← ih]
        by_cases hl : l = len + 1
        · simp [hl]
          omega
        · by_cases hle : 0 < l ∧ l ≤ len
          · simp [hl, hle, show l ≤ len + 1 by omega]
            omega
          · have hnot : ¬ (0 < l ∧ l ≤ len + 1) := by omega
            simp [hl, hle, hnot]
  rw [hcount]
  exact List.countP_le_length

def place (lengths : List Nat) (sym : Nat) : Nat :=
  shorter lengths (codeLength lengths sym) + rank lengths sym

section

variable {lengths : List Nat} {s t : Nat}

/-- Ranks go with the order of the symbols. -/
theorem rank_lt_rank (hst : s < t) (hs : 0 < codeLength lengths s)
    (hlen : codeLength lengths s = codeLength lengths t) :
    rank lengths s < rank lengths t := by
  have hlt := lt_length_of_used hs
  have hget := codeLength_eq_getElem hlt
  have hprefix : lengths.take (s + 1) <+: lengths.take t := List.take_prefix_take_left hst
  have hle := hprefix.sublist.count_le (codeLength lengths s)
  rw [List.take_succ_eq_append_getElem hlt, List.count_append, hget,
    List.count_singleton_self] at hle
  unfold rank
  rw [← hlen, hget]
  omega

/-- A place is inside the table. -/
theorem place_lt_length (hs : 0 < codeLength lengths s) : place lengths s < lengths.length :=
  (Nat.add_lt_add_left (rank_lt hs) _).trans_le (shorter_add_codes_le_length lengths _)

/-- Different symbols have different places. -/
theorem place_ne (hst : s < t) (hs : 0 < codeLength lengths s) (ht : 0 < codeLength lengths t) :
    place lengths s ≠ place lengths t := by
  have hrs := rank_lt hs
  have hrt := rank_lt ht
  unfold place
  rcases Nat.lt_trichotomy (codeLength lengths s) (codeLength lengths t) with hlt | heq | hgt
  · obtain ⟨more, hmore⟩ := Nat.exists_eq_add_of_lt hlt
    have hle := @shorter_add_codes_le lengths (codeLength lengths s) (more + 1) (Nat.succ_pos more)
    rw [← Nat.add_assoc, ← hmore] at hle
    omega
  · have hrank := rank_lt_rank hst hs heq
    rw [← heq]
    omega
  · obtain ⟨more, hmore⟩ := Nat.exists_eq_add_of_lt hgt
    have hle := @shorter_add_codes_le lengths (codeLength lengths t) (more + 1) (Nat.succ_pos more)
    rw [← Nat.add_assoc, ← hmore] at hle
    omega

end

end Monios.Library.Huffman
