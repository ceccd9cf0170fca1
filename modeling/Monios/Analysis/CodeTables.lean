import Monios.Library.Huffman
import Monios.Model.Inflate

/-!
# Bits and code words

What the bit reader has not handed out yet is a string of bits (`remaining`), and `br_read` takes
the first of them (`brRead_spec`). Between two reads there are less than eight bits in the buffer,
so that aligning drops what is left of the byte that was begun.
-/

set_option autoImplicit false

namespace Monios.Analysis.Inflate

open Monios.Library Monios.Library.Huffman Monios.Model.Inflate

variable {br : Br} {lengths : List Nat} {rest : List Bool} {len : Nat} {s : Nat}

def remaining (br : Br) : List Bool := bitsLE br.bb br.bl ++ bytesBits (br.buf.drop br.pos)

structure Ready (br : Br) : Prop where
  bb : br.bb < 2 ^ br.bl
  bl : br.bl < 8
  pos : br.pos ≤ br.buf.length
  err : br.err = false

structure Filling (br : Br) : Prop where
  bb : br.bb < 2 ^ br.bl
  pos : br.pos ≤ br.buf.length
  err : br.err = false

theorem byteAt_drop (buf : List UInt8) {pos : Nat} (h : pos < buf.length) :
    bytesBits (buf.drop pos) = bitsLE (byteAt buf pos) 8 ++ bytesBits (buf.drop (pos + 1)) := by
  have hget : byteAt buf pos = buf[pos].toNat := by
    unfold byteAt
    rw [List.getD_eq_getElem?_getD, List.getElem?_eq_getElem h, Option.getD_some]
  rw [hget, ← bytesBits_cons, List.getElem_cons_drop]

theorem brFill_spec {want : Nat} (hwant : want ≤ 16) (rounds : Nat) {br : Br} (h : Filling br)
    (hlen : want ≤ (remaining br).length) (hrounds : want ≤ br.bl + 8 * rounds)
    (hbl : br.bl < want + 8) :
    ∃ br', brFill want rounds br = (true, br') ∧ Filling br' ∧ remaining br' = remaining br ∧
      br'.buf = br.buf ∧
      want ≤ br'.bl ∧ br'.bl < want + 8 := by
  induction rounds generalizing br with
  | zero => exact ⟨br, rfl, h, rfl, rfl, by omega, hbl⟩
  | succ rounds ih =>
    unfold brFill
    by_cases hneed : br.bl < want
    · have hpos : br.pos < br.buf.length := by
        by_contra hend
        unfold remaining at hlen
        rw [List.drop_eq_nil_of_le (Nat.le_of_not_lt hend), bytesBits_nil, List.append_nil,
          length_bitsLE] at hlen
        omega
      have hbyte := byteAt_lt br.buf br.pos
      have hor : (br.bb ||| byteAt br.buf br.pos <<< br.bl) % 2 ^ 32 =
          br.bb + byteAt br.buf br.pos * 2 ^ br.bl := by
        rw [Nat.or_comm, ← Nat.shiftLeft_add_eq_or_of_lt h.bb, Nat.shiftLeft_eq, Nat.add_comm]
        apply Nat.mod_eq_of_lt
        have hpow : 2 ^ br.bl ≤ 2 ^ 16 := Nat.pow_le_pow_right (by decide) (by omega)
        have hbb := h.bb
        calc br.bb + byteAt br.buf br.pos * 2 ^ br.bl < 2 ^ br.bl + 255 * 2 ^ br.bl :=
              Nat.add_lt_add_of_lt_of_le hbb (Nat.mul_le_mul_right _ (by omega))
          _ ≤ 256 * 2 ^ 16 := by omega
          _ < 2 ^ 32 := by decide
      rw [if_pos hneed, if_neg (Nat.not_le_of_lt hpos), hor]
      have hnext : Filling ⟨br.buf, br.pos + 1, br.bb + byteAt br.buf br.pos * 2 ^ br.bl, br.bl + 8, br.err⟩ := by
        refine ⟨?_, hpos, h.err⟩
        dsimp only
        have hbb := h.bb
        rw [pow_add]
        have hmul : byteAt br.buf br.pos * 2 ^ br.bl ≤ 255 * 2 ^ br.bl :=
          Nat.mul_le_mul_right _ (by omega)
        omega
      have hsame : remaining ⟨br.buf, br.pos + 1, br.bb + byteAt br.buf br.pos * 2 ^ br.bl, br.bl + 8, br.err⟩ =
          remaining br := by
        unfold remaining
        dsimp only
        rw [bitsLE_append h.bb, byteAt_drop br.buf hpos, List.append_assoc]
      obtain ⟨br', hfill, hfilling, hrem, hbuf, hge, hlt⟩ :=
        ih hnext (by rw [hsame]; exact hlen) (by dsimp only; omega) (by dsimp only; omega)
      exact ⟨br', hfill, hfilling, hrem.trans hsame, hbuf, hge, hlt⟩
    · rw [if_neg hneed]
      exact ⟨br, rfl, h, rfl, rfl, by omega, hbl⟩

theorem brRead_spec (h : Ready br) {n v : Nat} (hn : n ≤ 16) (hv : v < 2 ^ n)
    (hrem : remaining br = bitsLE v n ++ rest) :
    ∃ br', brRead n br = (v, br') ∧ Ready br' ∧ remaining br' = rest ∧ br'.buf = br.buf := by
  have hbl := h.bl
  obtain ⟨full, hfill, hfilling, hsame, hbuf, hge, hlt⟩ :=
    @brFill_spec n hn n br ⟨h.bb, h.pos, h.err⟩
    (by rw [hrem, List.length_append, length_bitsLE]; exact Nat.le_add_right _ _) (by omega) (by omega)
  have hparts : bitsLE full.bb full.bl = bitsLE (full.bb % 2 ^ n) n ++
      bitsLE (full.bb / 2 ^ n) (full.bl - n) := by
    conv_lhs => rw [← Nat.add_sub_cancel' hge]
    exact bitsLE_add _ _ _
  have hall : remaining full = bitsLE (full.bb % 2 ^ n) n ++
      (bitsLE (full.bb / 2 ^ n) (full.bl - n) ++ bytesBits (full.buf.drop full.pos)) := by
    unfold remaining
    rw [hparts, List.append_assoc]
  rw [hsame, hrem] at hall
  obtain ⟨hfirst, hrest⟩ := List.append_inj hall (by rw [length_bitsLE, length_bitsLE])
  have hvalue : v = full.bb % 2 ^ n := bitsLE_inj hv (Nat.mod_lt _ (Nat.two_pow_pos n)) hfirst
  refine ⟨{ full with bb := full.bb >>> n, bl := full.bl - n }, ?_,
    ⟨?_, ?_, hfilling.pos, hfilling.err⟩, ?_, hbuf⟩
  · unfold brRead
    rw [hfill, hvalue]
    exact if_pos rfl
  · dsimp only
    rw [Nat.shiftRight_eq_div_pow, Nat.div_lt_iff_lt_mul (Nat.two_pow_pos n), ← pow_add,
      Nat.sub_add_cancel hge]
    exact hfilling.bb
  · dsimp only
    omega
  · unfold remaining
    rw [Nat.shiftRight_eq_div_pow]
    exact hrest.symm

theorem brRead_one (h : Ready br) {b : Bool} (hrem : remaining br = b :: rest) :
    ∃ br', brRead 1 br = (b.toNat, br') ∧ Ready br' ∧ remaining br' = rest ∧ br'.buf = br.buf := by
  apply brRead_spec h (by decide) (Bool.toNat_lt b)
  rw [hrem]
  cases b with
  | false => rfl
  | true => rfl

theorem getD_set (l : List Nat) (i v j : Nat) :
    (l.set i v).getD j 0 = if i = j ∧ i < l.length then v else l.getD j 0 := by
  rw [List.getD_eq_getElem?_getD, List.getD_eq_getElem?_getD, List.getElem?_set]
  by_cases hij : i = j
  · subst hij
    by_cases hi : i < l.length
    · rw [if_pos rfl, if_pos hi, if_pos ⟨rfl, hi⟩, Option.getD_some]
    · rw [if_pos rfl, if_neg hi, if_neg fun h => hi h.2, List.getElem?_eq_none (Nat.le_of_not_lt hi)]
  · rw [if_neg hij, if_neg fun h => hij h.1]

theorem foldl_count (lengths count : List Nat) (hlen : len < count.length) :
    (lengths.foldl (fun count len => count.set len (count.getD len 0 + 1)) count).getD len 0 =
      count.getD len 0 + lengths.count len := by
  induction lengths generalizing count with
  | nil => rfl
  | cons l lengths ih =>
    rw [List.foldl_cons, ih _ (by rw [List.length_set]; exact hlen), getD_set, List.count_cons]
    by_cases hl : l = len
    · subst hl
      rw [if_pos ⟨rfl, hlen⟩, beq_self_eq_true, if_pos rfl]
      omega
    · rw [if_neg fun h => hl h.1, beq_eq_false_iff_ne.mpr hl, if_neg Bool.false_ne_true,
        Nat.add_zero]

theorem length_foldl_set (lengths count : List Nat) :
    (lengths.foldl (fun count len => count.set len (count.getD len 0 + 1)) count).length =
      count.length := by
  induction lengths generalizing count with
  | nil => rfl
  | cons l lengths ih => rw [List.foldl_cons, ih, List.length_set]

theorem countLengths_eq (lengths : List Nat) (hlen : len < 16) :
    (countLengths lengths).getD len 0 = codes lengths len := by
  unfold countLengths codes
  rw [getD_set, length_foldl_set, List.length_replicate]
  by_cases hzero : len = 0
  · subst hzero
    rw [if_pos ⟨rfl, by decide⟩, if_pos rfl]
  · rw [if_neg fun h => hzero h.1.symm, if_neg hzero, foldl_count _ _ (by rw [List.length_replicate]; exact hlen),
      List.getD_eq_getElem?_getD, List.getElem?_replicate, if_pos hlen, Option.getD_some, Nat.zero_add]

theorem offset_eq (lengths : List Nat) (hlen : len < 16) :
    offset (countLengths lengths) len = shorter lengths len := by
  induction len with
  | zero => rfl
  | succ len ih =>
    cases len with
    | zero => rfl
    | succ len =>
      rw [offset, ih (by omega), countLengths_eq lengths (by omega)]
      rfl

theorem placeSymbols_spec (hle : ∀ len ∈ lengths, len < 16) (hmax : lengths.length ≤ 288)
    (before rest : List Nat) (hall : lengths = before ++ rest) {off sym : List Nat}
    (hoffLen : off.length = 16) (hsymLen : sym.length = 288)
    (hoff : ∀ len, 0 < len → len < 16 → off.getD len 0 = shorter lengths len + before.count len)
    (hsym : ∀ s, s < before.length → 0 < codeLength lengths s → sym.getD (place lengths s) 0 = s)
    (hs : 0 < codeLength lengths s) :
    (placeSymbols rest before.length (off, sym)).2.getD (place lengths s) 0 = s := by
  induction rest generalizing before off sym with
  | nil =>
    rw [List.append_nil] at hall
    subst hall
    exact hsym s (lt_length_of_used hs) hs
  | cons len rest ih =>
    have hnext : lengths = (before ++ [len]) ++ rest := by
      rw [hall, List.append_assoc, List.singleton_append]
    have hlength : (before ++ [len]).length = before.length + 1 := by
      rw [List.length_append, List.length_singleton]
    have hcode : codeLength lengths before.length = len := by
      unfold codeLength
      rw [hall, List.getD_append_right _ _ _ _ (le_refl _), Nat.sub_self]
      rfl
    have hlt : len < 16 := hle len (by rw [hall]; exact List.mem_append_right _ List.mem_cons_self)
    unfold placeSymbols
    rw [← hlength]
    by_cases hlen : len ≠ 0
    · rw [if_pos hlen]
      have hused : 0 < codeLength lengths before.length := by
        rw [hcode]
        exact Nat.pos_of_ne_zero hlen
      have hplace : off.getD len 0 = place lengths before.length := by
        unfold place rank
        rw [hcode, hoff len (Nat.pos_of_ne_zero hlen) hlt, hall, List.take_left]
      apply ih (before ++ [len]) hnext (by rw [List.length_set, hoffLen])
        (by rw [List.length_set, hsymLen])
      · intro len' hpos hlt'
        rw [List.count_append, getD_set, hoffLen]
        by_cases heq : len = len'
        · subst heq
          rw [if_pos ⟨rfl, hlt⟩, List.count_singleton_self, hoff len hpos hlt', Nat.add_assoc]
        · rw [if_neg fun h => heq h.1, hoff len' hpos hlt', List.count_singleton,
            beq_eq_false_iff_ne.mpr heq,
            if_neg Bool.false_ne_true, Nat.add_zero]
      · intro t ht husedt
        rw [hlength] at ht
        rw [hplace, getD_set, hsymLen]
        by_cases heq : t = before.length
        · subst heq
          exact if_pos ⟨rfl, (place_lt_length hused).trans_le hmax⟩
        · rw [if_neg fun h => place_ne (by omega) husedt hused h.1.symm]
          exact hsym t (by omega) husedt
    · rw [if_neg hlen]
      have hzero : len = 0 := by omega
      apply ih (before ++ [len]) hnext hoffLen hsymLen
      · intro len' hpos hlt'
        rw [List.count_append, hoff len' hpos hlt', hzero, List.count_singleton,
          beq_eq_false_iff_ne.mpr hpos.ne,
          if_neg Bool.false_ne_true, Nat.add_zero]
      · intro t ht hused
        rw [hlength] at ht
        by_cases heq : t = before.length
        · rw [heq, hcode, hzero] at hused
          exact absurd hused (Nat.lt_irrefl 0)
        · exact hsym t (by omega) hused

theorem huffBuild_spec (hle : ∀ len ∈ lengths, len < 16) (hmax : lengths.length ≤ 288) :
    (∀ len, len < 16 → (huffBuild lengths).count.getD len 0 = codes lengths len) ∧
      ∀ s, 0 < codeLength lengths s → (huffBuild lengths).sym.getD (place lengths s) 0 = s := by
  refine ⟨fun len hlen => countLengths_eq lengths hlen, fun s hs => ?_⟩
  apply placeSymbols_spec hle hmax [] lengths rfl _ _ _ _ hs
  · rw [List.length_map, List.length_range]
  · exact List.length_replicate
  · intro len _ hlen
    rw [List.getD_eq_getElem?_getD, List.getElem?_map, List.getElem?_range hlen]
    exact offset_eq lengths hlen
  · exact fun t ht => absurd ht (Nat.not_lt_zero t)

structure Coded (lengths : List Nat) : Prop where
  valid : Valid lengths 15
  length : lengths.length ≤ 288

theorem Coded.table (h : Coded lengths) :
    (∀ len, len < 16 → (huffBuild lengths).count.getD len 0 = codes lengths len) ∧
      ∀ s, 0 < codeLength lengths s → (huffBuild lengths).sym.getD (place lengths s) 0 = s :=
  huffBuild_spec (fun len hlen => Nat.lt_succ_of_le (h.valid.le len hlen)) h.length

theorem huffFrom_spec {lengths : List Nat} (hcoded : Coded lengths) {s : Nat}
    (hs : 0 < codeLength lengths s) {rest : List Bool} (rounds : Nat) {len more : Nat}
    (hlen : codeLength lengths s = len + (more + 1)) (hrounds : more < rounds) {br : Br}
    (h : Ready br) (hrem : remaining br = bitsBE (codeOf lengths s) (more + 1) ++ rest) :
    ∃ br', huffFrom (huffBuild lengths) rounds (len + 1) (codeOf lengths s / 2 ^ (more + 1))
      (firstCode lengths (len + 1))
        (shorter lengths (len + 1)) br = (some s, br') ∧ Ready br' ∧ remaining br' = rest ∧
        br'.buf = br.buf := by
  obtain ⟨hcount, hsym⟩ := hcoded.table
  have hmax := codeLength_le hcoded.valid s
  induction rounds generalizing len more br with
  | zero => exact absurd hrounds (Nat.not_lt_zero _)
  | succ rounds ih =>
    rw [bitsBE_succ, List.cons_append] at hrem
    obtain ⟨next, hread, hready, hnext, hbuf⟩ := brRead_one h hrem
    have hcode : (codeOf lengths s / 2 ^ (more + 1)) <<< 1 ||| (decide (codeOf lengths s / 2 ^ more % 2 = 1)).toNat =
        codeOf lengths s / 2 ^ more := by
      have hbit : (decide (codeOf lengths s / 2 ^ more % 2 = 1)).toNat =
          codeOf lengths s / 2 ^ more % 2 := by
        by_cases hone : codeOf lengths s / 2 ^ more % 2 = 1
        · rw [decide_eq_true hone, hone]
          rfl
        · rw [decide_eq_false hone]
          simp only [Bool.toNat_false]
          omega
      rw [hbit, ← Nat.shiftLeft_add_eq_or_of_lt (by omega), Nat.shiftLeft_eq, pow_one, mul_comm,
        ← div_two_pow_succ]
    unfold huffFrom
    rw [hread]
    dsimp only
    rw [hcode, hcount (len + 1) (by omega)]
    cases more with
    | zero =>
      rw [pow_zero, Nat.div_one]
      have hlen' : len + 1 = codeLength lengths s := by omega
      have hrank := rank_lt hs
      have hpast : codeOf lengths s - firstCode lengths (codeLength lengths s) = rank lengths s :=
        Nat.add_sub_cancel_left ..
      have hfound := hsym s hs
      unfold place at hfound
      rw [hlen', hpast, if_pos ⟨Nat.le_add_right _ _, hrank⟩, hfound]
      exact ⟨next, rfl, hready, hnext, hbuf⟩
    | succ more =>
      have hge := @le_codeOf_div lengths s (len + 1) (more + 1) (by omega) (Nat.succ_pos more)
      have hpast : ¬ (firstCode lengths (len + 1) ≤ codeOf lengths s / 2 ^ (more + 1) ∧
          codeOf lengths s / 2 ^ (more + 1) - firstCode lengths (len + 1) < codes lengths (len + 1)) := by
        omega
      rw [if_neg hpast]
      obtain ⟨br', hfrom, hready', hrem', hbuf'⟩ :=
        @ih (len + 1) more (by omega) (by omega) next hready hnext
      refine ⟨br', ?_, hready', hrem', hbuf'.trans hbuf⟩
      rw [← hfrom, Nat.shiftLeft_eq, pow_one]
      rfl

theorem huffDecode_spec (hcoded : Coded lengths) (hs : 0 < codeLength lengths s)
    (h : Ready br) (hrem : remaining br = codeBits lengths s ++ rest) :
    ∃ br', huffDecode (huffBuild lengths) br = (some s, br') ∧ Ready br' ∧ remaining br' = rest ∧
      br'.buf = br.buf := by
  obtain ⟨more, hmore⟩ := Nat.exists_eq_succ_of_ne_zero hs.ne'
  have hle := codeLength_le hcoded.valid s
  unfold codeBits at hrem
  rw [hmore] at hrem
  have hzero : codeOf lengths s / 2 ^ (more + 1) = 0 := by
    have hlt := codeOf_lt hcoded.valid hs
    rw [hmore] at hlt
    exact Nat.div_eq_of_lt hlt
  have hspec := @huffFrom_spec lengths hcoded s hs rest 15 0 more (by omega) (by omega) br h hrem
  rw [hzero] at hspec
  exact hspec

end Monios.Analysis.Inflate
