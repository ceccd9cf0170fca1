import Monios.Analysis.InflateStream
import Monios.Model.InflateAccess

/-!
# What the decoder touches

`Robust` says of an input and a capacity that the decoder returns, that it touches only the input,
the tables and the output, and that it returns a size only when it never missed a byte. The input
may be any string.
-/

set_option autoImplicit false

namespace Monios.Analysis.InflateAccess

open Monios.Library Monios.Library.Traced Monios.Library.Huffman Monios.Model.Zcomp Monios.Model.InflateAccess
open Monios.Model.Inflate (Br Huff countLengths offset lenBase toInt)

variable {lengths : List Nat} {a : Access} {limit : Nat}

def InRange (srclen cap : Nat) : Access → Prop
  | .input i => i < srclen
  | .table i => i < 288
  | .copied i => i < cap
  | .output i => i < cap
  | _ => True

/-- The sums in the checks of a stored block are the numbers themselves, or the block is refused
because of its size. -/
def StoredFits : Access → Prop
  | .header pos => pos + 4 < 2 ^ 32
  | .contents pos len room => len ≤ room → pos + len < 2 ^ 32
  | _ => True

/-- The decoder returns, stays within its buffers, and returns a size only when it had all the bytes
it asked for. -/
structure Robust (src : Buffer) (out : Memory) (outcap : UInt32) : Prop where
  returns : ∃ limit, ∀ more, limit ≤ more → inflateRaw more src out outcap ≠ none
  inRange : ∀ limit, ∀ a ∈ inflateLog limit src out outcap, InRange src.val.length outcap.toNat a
  size : ∀ limit n, inflateRaw limit src out outcap = some n → 0 ≤ n →
    n ≤ outcap.toNat ∧ Access.exhausted ∉ inflateLog limit src out outcap

def NoWrap (src : Buffer) (out : Memory) (outcap : UInt32) : Prop :=
  ∀ limit, ∀ a ∈ inflateLog limit src out outcap, StoredFits a

structure Held (src : List UInt8) (cap : Nat) (s : State) : Prop where
  buf : s.br.buf = src
  pos : s.br.pos ≤ src.length
  out : s.out.o ≤ cap

theorem Held.same {src : List UInt8} {cap : Nat} {s t : State} (h : Held src cap s)
    (hbuf : t.br.buf = s.br.buf) (hpos : t.br.pos = s.br.pos) (hout : t.out = s.out) :
    Held src cap t :=
  ⟨hbuf.trans h.buf, hpos ▸ h.pos, hout ▸ h.out⟩

theorem inRange_input {srclen cap i : Nat} (h : i < srclen) : InRange srclen cap (.input i) := h

theorem inRange_table {srclen cap i : Nat} (h : i < 288) : InRange srclen cap (.table i) := h

theorem inRange_output {srclen cap i : Nat} (h : i < cap) : InRange srclen cap (.output i) := h

def Stored (srclen : Nat) : Access → Prop
  | .header pos => pos ≤ srclen
  | .contents pos len _ => pos ≤ srclen ∧ len < 2 ^ 16
  | _ => True

def left (s : State) : Nat := s.br.bl + 8 * (s.br.buf.length - s.br.pos)

structure Moves (src : List UInt8) (cap : Nat) (s : State) (l : List Access) (t : State) : Prop where
  held : Held src cap t
  accesses : (∀ a ∈ l, InRange src.length cap a) ↔ ∀ a ∈ l, StoredFits a
  stored : ∀ a ∈ l, Stored src.length a
  err : s.br.err = true → t.br.err = true
  exhausted : Access.exhausted ∈ l → t.br.err = true
  left_le : (∀ a ∈ l, StoredFits a) → left t ≤ left s
  out : s.out.o ≤ t.out.o

section

variable {src : List UInt8} {cap : Nat} {s t u : State} {l l' : List Access}

theorem Moves.refl (h : Held src cap s) : Moves src cap s [] s :=
  ⟨h, by simp, by simp, id, by simp, fun _ => le_refl _, le_refl _⟩

/-- Two parts of a run of the decoder. -/
theorem Moves.trans (h : Moves src cap s l t) (h' : Moves src cap t l' u) :
    Moves src cap s (l ++ l') u := by
  refine ⟨h'.held, ?_, ?_, fun he => h'.err (h.err he), ?_, ?_, h.out.trans h'.out⟩
  · rw [List.forall_mem_append, List.forall_mem_append, h.accesses, h'.accesses]
  · exact List.forall_mem_append.mpr ⟨h.stored, h'.stored⟩
  · intro he
    rcases List.mem_append.mp he with he | he
    · exact h'.err (h.exhausted he)
    · exact h'.exhausted he
  · intro hfits
    rw [List.forall_mem_append] at hfits
    exact (h'.left_le hfits.2).trans (h.left_le hfits.1)

/-- One access to the memory. -/
theorem Moves.emit (h : Held src cap s) (hin : InRange src.length cap a) (hfits : StoredFits a)
    (hstored : Stored src.length a) (hne : a ≠ .exhausted) : Moves src cap s [a] s := by
  refine ⟨h, ?_, by simpa using hstored, id, fun he => absurd (List.mem_singleton.mp he).symm hne,
    fun _ => le_refl _, le_refl _⟩
  simp [hin, hfits]

/-- A step that reads no memory. -/
theorem Moves.change (h : Held src cap t) (herr : s.br.err = true → t.br.err = true)
    (hleft : left t ≤ left s) (hout : s.out.o ≤ t.out.o) : Moves src cap s [] t :=
  ⟨h, by simp, by simp, herr, by simp, fun _ => hleft, hout⟩

variable {α β : Type} {Q : α → State → Prop} {Q' : β → State → Prop}

abbrev Does (src : List UInt8) (cap : Nat) (Q : α → State → Prop) (m : Decode α) (s : State) :
    Prop :=
  Ends (Moves src cap) Q m s

theorem does_pure (h : Held src cap s) {a : α} (hQ : Q a s) : Does src cap Q (pure a) s :=
  Ends.pure (.refl h) hQ

/-- What one part has done, the next one continues. -/
theorem does_bind {m : Decode α} {f : α → Decode β} (hm : Does src cap Q m s)
    (hf : ∀ a t, Held src cap t → Q a t → Does src cap Q' (f a) t) :
    Does src cap Q' (m >>= f) s := by
  obtain ⟨hmoves, hq⟩ := hm
  obtain ⟨hmoves', hq'⟩ := hf _ _ hmoves.held hq
  exact ⟨hmoves.trans hmoves', hq'⟩

/-- An access that is in range, before the rest. -/
theorem does_emit {f : Unit → Decode β} (h : Held src cap s) (hin : InRange src.length cap a)
    (hfits : StoredFits a) (hstored : Stored src.length a) (hne : a ≠ .exhausted)
    (hf : Does src cap Q' (f ()) s) :
    Does src cap Q' (emit a >>= f) s := by
  obtain ⟨hmoves, hq⟩ := hf
  exact ⟨(Moves.emit h hin hfits hstored hne).trans hmoves, hq⟩

theorem does_change {g : State → State} {f : Unit → Decode β} (h : Held src cap (g s))
    (herr : s.br.err = true → (g s).br.err = true) (hleft : left (g s) ≤ left s)
    (hout : s.out.o ≤ (g s).out.o) (hf : Does src cap Q' (f ()) (g s)) :
    Does src cap Q' (modifies g >>= f) s := by
  obtain ⟨hmoves, hq⟩ := hf
  exact ⟨(Moves.change h herr hleft hout).trans hmoves, hq⟩

/-- `br_fill` reads input bytes inside the source until there are enough bits. -/
theorem brFill_does {want : Nat} (rounds : Nat) (h : Held src cap s)
    (hrounds : want ≤ s.br.bl + 8 * rounds) :
    Does src cap (fun ok t => t.out = s.out ∧ left t = left s ∧ (ok = true → want ≤ t.br.bl) ∧
      (ok = false → left t < want)) (brFill want rounds) s := by
  induction rounds generalizing s with
  | zero => exact does_pure h ⟨rfl, rfl, fun _ => by omega, by simp⟩
  | succ rounds ih =>
    unfold brFill
    refine Ends.reads_bind (Ends.ite (fun hneed => Ends.ite (fun hend => ?_) fun hmore => ?_) fun henough => ?_)
    · -- no byte is left
      refine ⟨⟨⟨h.buf, h.pos, h.out⟩, ?_, ?_, fun _ => rfl, fun _ => rfl, fun _ => le_refl _, le_refl _⟩, rfl,
        rfl, ?_, ?_⟩
      · simp [InRange, StoredFits]
      · simp [Stored]
      · simp
      · intro _
        simp only [left, state_bind, state_emit, state_modifies, state_pure]
        omega
    · have hlt : s.br.pos < src.length := by
        rw [← h.buf]
        omega
      apply does_emit h (inRange_input hlt) trivial trivial (by simp)
      have hleft : left { s with br := { s.br with
          bb := (s.br.bb ||| byteAt s.br.buf s.br.pos <<< s.br.bl) % 2 ^ 32, pos := s.br.pos + 1, bl := s.br.bl + 8 } } =
          left s := by
        simp only [left]
        omega
      have hheld : Held src cap { s with br := { s.br with
          bb := (s.br.bb ||| byteAt s.br.buf s.br.pos <<< s.br.bl) % 2 ^ 32, pos := s.br.pos + 1, bl := s.br.bl + 8 } } :=
        ⟨h.buf, hlt, h.out⟩
      apply does_change hheld id hleft.le (le_refl _)
      refine (ih hheld (by simp only; omega)).mono ?_
      rintro ok t ⟨hout, hsame, henough, hshort⟩
      exact ⟨hout, hsame.trans hleft, henough, hshort⟩
    · exact does_pure h ⟨rfl, rfl, fun _ => by omega, by simp⟩

/-- `br_read` returns a number of `n` bits, or notes that the input is at its end. -/
theorem brRead_does (n : Nat) (h : Held src cap s) :
    Does src cap (fun v t => t.out = s.out ∧ v < 2 ^ n ∧
      (left t + n = left s ∨ (v = 0 ∧ left s < n ∧ left t = left s)))
      (brRead n) s := by
  unfold brRead
  apply does_bind (brFill_does n h (by omega))
  rintro ok t ht ⟨hout, hsame, henough, hshort⟩
  refine Ends.ite (fun hok => ?_) fun hok => ?_
  · have hbl := henough hok
    apply Ends.reads_bind
    have hleft : left { t with br := { t.br with bb := t.br.bb >>> n, bl := t.br.bl - n } } + n =
        left t := by
      simp only [left]
      omega
    have hheld : Held src cap { t with br := { t.br with bb := t.br.bb >>> n, bl := t.br.bl - n } } := ht.same rfl rfl rfl
    apply does_change hheld id (by omega) (le_refl _)
    exact does_pure hheld ⟨hout, Nat.mod_lt _ (Nat.two_pow_pos n), Or.inl (hleft.trans hsame)⟩
  · have hless := hshort (by simpa using hok)
    exact does_pure ht ⟨hout, Nat.two_pow_pos n, Or.inr ⟨rfl, hsame ▸ hless, hsame⟩⟩

/-- Sorting the symbols writes inside the table. -/
theorem placeSymbols_does (hle : ∀ len ∈ lengths, len < 16) (hmax : lengths.length ≤ 288)
    (before rest : List Nat) (hall : lengths = before ++ rest) {off sym : List Nat}
    (hoffLen : off.length = 16) (hoff : ∀ len, 0 < len → len < 16 →
      off.getD len 0 = shorter lengths len + before.count len) (h : Held src cap s) :
    Does src cap (fun placed t => t = s ∧ placed = Model.Inflate.placeSymbols rest before.length (off, sym))
      (placeSymbols rest before.length (off, sym)) s := by
  induction rest generalizing before off sym with
  | nil => exact does_pure h ⟨rfl, rfl⟩
  | cons len rest ih =>
    have hnext : lengths = (before ++ [len]) ++ rest := by
      rw [hall, List.append_assoc, List.singleton_append]
    have hlength : (before ++ [len]).length = before.length + 1 := by
      rw [List.length_append, List.length_singleton]
    have hcode : codeLength lengths before.length = len := by
      unfold codeLength
      rw [hall, List.getD_append_right _ _ _ _ (le_refl _), Nat.sub_self]
      rfl
    have hlt : len < 16 := hle len (by rw [hall]; exact List.mem_append_right _ List.mem_cons_self)
    unfold placeSymbols Model.Inflate.placeSymbols
    rw [← hlength]
    by_cases hlen : len ≠ 0
    · rw [if_pos hlen, if_pos hlen]
      have hused : 0 < codeLength lengths before.length := by
        rw [hcode]
        exact Nat.pos_of_ne_zero hlen
      have hplace : off.getD len 0 = place lengths before.length := by
        unfold place rank
        rw [hcode, hoff len (Nat.pos_of_ne_zero hlen) hlt, hall, List.take_left]
      have hindex : off.getD len 0 < 288 := hplace ▸ (place_lt_length hused).trans_le hmax
      apply does_emit h (inRange_table hindex) trivial trivial (by simp)
      apply ih (before ++ [len]) hnext (by rw [List.length_set, hoffLen])
      intro len' hpos hlt'
      rw [List.count_append, Inflate.getD_set, hoffLen]
      by_cases heq : len = len'
      · subst heq
        rw [if_pos ⟨rfl, hlt⟩, List.count_singleton_self, hoff len hpos hlt', Nat.add_assoc]
      · rw [if_neg fun h => heq h.1, hoff len' hpos hlt', List.count_singleton,
          beq_eq_false_iff_ne.mpr heq,
          if_neg Bool.false_ne_true, Nat.add_zero]
    · rw [if_neg hlen, if_neg hlen]
      have hzero : len = 0 := by omega
      apply ih (before ++ [len]) hnext hoffLen
      intro len' hpos hlt'
      rw [List.count_append, hoff len' hpos hlt', hzero, List.count_singleton,
        beq_eq_false_iff_ne.mpr hpos.ne,
        if_neg Bool.false_ne_true, Nat.add_zero]

/-- `huff_build` writes inside its tables and builds the table of the plain model. -/
theorem huffBuild_does (hle : ∀ len ∈ lengths, len < 16) (hmax : lengths.length ≤ 288)
    (h : Held src cap s) :
    Does src cap (fun table t => t = s ∧ table = Model.Inflate.huffBuild lengths)
      (huffBuild lengths) s := by
  unfold huffBuild
  apply does_bind (placeSymbols_does hle hmax [] lengths rfl _ _ h)
  · rintro placed t ht ⟨rfl, rfl⟩
    exact does_pure ht ⟨rfl, rfl⟩
  · rw [List.length_map, List.length_range]
  · intro len _ hlen
    rw [List.getD_eq_getElem?_getD, List.getElem?_map, List.getElem?_range hlen]
    exact Inflate.offset_eq lengths hlen

/-- The rounds of `huff_decode` read inside the table. -/
theorem huffFrom_does (hmax : lengths.length ≤ 288) (rounds : Nat) {len code first : Nat}
    (hlen : len + rounds = 16) (h : Held src cap s) : Does src cap (fun _ t => t.out = s.out)
      (huffFrom (Model.Inflate.huffBuild lengths) rounds len code first (shorter lengths len)) s := by
  induction rounds generalizing len code first s with
  | zero =>
    unfold huffFrom
    have hheld : Held src cap { s with br := { s.br with err := true } } := h.same rfl rfl rfl
    apply does_change hheld (fun _ => rfl) (le_refl _) (le_refl _)
    exact does_pure (Q := fun _ t => t.out = s.out) hheld rfl
  | succ rounds ih =>
    unfold huffFrom
    apply does_bind (brRead_does 1 h)
    rintro bit t ht ⟨hout, -, -⟩
    have hcount : (Model.Inflate.huffBuild lengths).count.getD len 0 = codes lengths len :=
      Inflate.countLengths_eq lengths (by omega)
    refine Ends.ite (fun hfound => ?_) fun _ => ?_
    · rw [hcount] at hfound
      have hlength := shorter_add_codes_le_length lengths len
      apply does_emit ht (inRange_table (by omega)) trivial trivial (by simp)
      exact does_pure ht hout
    · rw [hcount]
      exact (ih (by omega) ht).mono fun _ u hu => hu.trans hout

/-- `huff_decode` reads inside its tables. -/
theorem huffDecode_does (hmax : lengths.length ≤ 288) (h : Held src cap s) :
    Does src cap (fun _ t => t.out = s.out) (huffDecode (Model.Inflate.huffBuild lengths)) s :=
  huffFrom_does hmax 15 rfl h

/-- The lengths of the code-length code are three-bit numbers. -/
theorem readClLens_does (n i : Nat) {clLen : List Nat} (hlen : ∀ len ∈ clLen, len < 16)
    (h : Held src cap s) :
    Does src cap (fun lens t => t.out = s.out ∧ lens.length = clLen.length ∧ ∀ len ∈ lens, len < 16)
      (readClLens n i clLen) s := by
  induction n generalizing i clLen s with
  | zero => exact does_pure h ⟨rfl, rfl, hlen⟩
  | succ n ih =>
    unfold readClLens
    apply does_bind (brRead_does 3 h)
    rintro len t ht ⟨hout, hlt, -⟩
    have hset : ∀ l ∈ clLen.set (Model.Inflate.clOrder.getD i 0) len, l < 16 := by
      intro l hl
      rcases List.mem_or_eq_of_mem_set hl with hl | rfl
      · exact hlen l hl
      · omega
    refine (ih (i + 1) hset ht).mono ?_
    rintro lens u ⟨hout', hlength, hlens⟩
    exact ⟨hout'.trans hout, hlength.trans List.length_set, hlens⟩

/-- A symbol of the code-length code adds at least one length. -/
theorem addLengths_does (sym : Nat) {prev : Nat} (hprev : prev < 16) (h : Held src cap s) :
    Does src cap (fun more t => t.out = s.out ∧ 0 < more.1.length ∧ (∀ len ∈ more.1, len < 16) ∧ more.2 < 16)
      (addLengths sym prev) s := by
  have hrep : ∀ {n value : Nat}, value < 16 → ∀ len ∈ List.replicate n value, len < 16 := by
    intro n value hvalue len hlen
    rwa [List.eq_of_mem_replicate hlen]
  unfold addLengths
  refine Ends.ite (fun hsmall => ?_) fun _ => Ends.ite (fun _ => ?_) fun _ => Ends.ite
    (fun _ => ?_) fun _ => ?_
  · exact does_pure h ⟨rfl, by simp, by simpa using hsmall, hsmall⟩
  · apply does_bind (brRead_does 2 h)
    rintro extra t ht ⟨hout, -, -⟩
    exact does_pure ht ⟨hout, by simp, hrep hprev, hprev⟩
  · apply does_bind (brRead_does 3 h)
    rintro extra t ht ⟨hout, -, -⟩
    exact does_pure ht ⟨hout, by simp, hrep (by omega), by simp⟩
  · apply does_bind (brRead_does 7 h)
    rintro extra t ht ⟨hout, -, -⟩
    exact does_pure ht ⟨hout, by simp, hrep (by omega), by simp⟩

/-- The lengths of the two codes are read one by one. -/
theorem readLengthsFrom_does (hmax : lengths.length ≤ 288) (total rounds : Nat) {out : List Nat}
    {prev : Nat} (hout : ∀ len ∈ out, len < 16) (hprev : prev < 16) (h : Held src cap s) :
    Does src cap (fun r t => t.out = s.out ∧ (∀ len ∈ r.2, len < 16) ∧
      (total - out.length < rounds → r.1 ≠ .unfinished))
      (readLengthsFrom (Model.Inflate.huffBuild lengths) total rounds out prev) s := by
  induction rounds generalizing out prev s with
  | zero => exact does_pure h ⟨rfl, hout, fun hlt => absurd hlt (Nat.not_lt_zero _)⟩
  | succ rounds ih =>
    unfold readLengthsFrom
    refine Ends.ite (fun hmore => ?_) fun _ => does_pure h ⟨rfl, hout, by simp⟩
    apply does_bind (huffDecode_does hmax h)
    intro sym t ht hsame
    cases sym with
    | none => exact does_pure ht ⟨hsame, hout, by simp⟩
    | some sym =>
      apply does_bind (addLengths_does sym hprev ht)
      rintro more u hu ⟨hsame', hpos, hlens, hprev'⟩
      have hall : ∀ len ∈ out ++ more.1.take (total - out.length), len < 16 := by
        intro len hlen
        rcases List.mem_append.mp hlen with hlen | hlen
        · exact hout len hlen
        · exact hlens len (List.mem_of_mem_take hlen)
      refine (ih hall hprev' hu).mono ?_
      rintro r v ⟨hsame'', hr, hreturns⟩
      refine ⟨hsame''.trans (hsame'.trans hsame), hr, fun hlt => hreturns ?_⟩
      rw [List.length_append, List.length_take]
      omega

/-- The reading of the lengths ends when there is a round for each of them. -/
theorem readDynamicLengths_does (limit total : Nat) (h : Held src cap s) :
    Does src cap (fun r t => t.out = s.out ∧ (∀ len ∈ r.2, len < 16) ∧ (total < limit → r.1 ≠ .unfinished))
      (readDynamicLengths limit total) s := by
  unfold readDynamicLengths
  apply does_bind (brRead_does 4 h)
  rintro hclen t ht ⟨hout, -, -⟩
  have hzero : ∀ len ∈ List.replicate 19 0, len < 16 := by simp
  apply does_bind (readClLens_does (hclen + 4) 0 hzero ht)
  rintro clLen u hu ⟨hout', hlength, hlens⟩
  rw [List.length_replicate] at hlength
  apply does_bind (huffBuild_does hlens (by omega) hu)
  rintro table v hv ⟨rfl, rfl⟩
  refine (readLengthsFrom_does (by omega) total limit (by simp) (by decide) hv).mono ?_
  rintro r w ⟨hout'', hr, hreturns⟩
  exact ⟨hout''.trans (hout'.trans hout), hr, fun hlt => hreturns (by simpa using hlt)⟩

/-- A match is copied inside the output that is already there. -/
theorem copyLoop_does (hcap : cap < 2 ^ 32) (distance length : Nat) (h : Held src cap s) :
    Does src cap (fun ok t => ok = true → t.out.o = s.out.o + length)
      (copyLoop distance cap length) s := by
  induction length generalizing s with
  | zero => exact does_pure (Q := fun ok t => ok = true → t.out.o = s.out.o + 0) h fun _ => rfl
  | succ length ih =>
    unfold copyLoop
    refine Ends.reads_bind (Ends.ite (fun _ => does_pure h (by simp)) fun hroom => ?_)
    have hlt : s.out.o < cap := by omega
    have hput : (s.out.put (s.out.dst (s.out.o - distance))).o = s.out.o + 1 :=
      Nat.mod_eq_of_lt (by omega)
    have hheld : Held src cap { s with out := s.out.put (s.out.dst (s.out.o - distance)) } :=
      ⟨h.buf, h.pos, by simp only [hput]; omega⟩
    have hcopied : InRange src.length cap (.copied (s.out.o - distance)) :=
      Nat.lt_of_le_of_lt (Nat.sub_le _ _) hlt
    apply does_emit h hcopied trivial trivial (by simp)
    apply does_emit h (inRange_output hlt) trivial trivial (by simp)
    apply does_change hheld id (le_refl _) (by simp only [hput]; omega)
    refine (ih hheld).mono fun ok t hok htrue => ?_
    rw [hok htrue]
    simp only [hput]
    omega

theorem three_le_lenBase : ∀ c, c < 29 → 3 ≤ lenBase.getD c 0 := by decide

/-- A match makes the output longer. -/
theorem decodeMatch_does (hcap : cap < 2 ^ 32) (hmax : lengths.length ≤ 288) (sym : Nat)
    (h : Held src cap s) :
    Does src cap (fun ok t => ok = true → s.out.o < t.out.o)
      (decodeMatch (Model.Inflate.huffBuild lengths) cap sym) s := by
  unfold decodeMatch
  refine Ends.ite (fun _ => does_pure h (by simp)) fun hs => ?_
  have hlong := three_le_lenBase (sym - 257) (by omega)
  apply does_bind (brRead_does _ h)
  rintro extra t ht ⟨hout, -, -⟩
  apply does_bind (huffDecode_does hmax ht)
  intro dsym u hu hout'
  cases dsym with
  | none => exact does_pure hu (by simp)
  | some dsym =>
    refine Ends.ite (fun _ => does_pure hu (by simp)) fun _ => ?_
    apply does_bind (brRead_does _ hu)
    rintro extra' v hv ⟨hout'', -, -⟩
    refine Ends.reads_bind (Ends.ite (fun _ => does_pure hv (by simp)) fun _ => ?_)
    refine (copyLoop_does hcap _ _ hv).mono fun ok w hw hok => ?_
    rw [hw hok, hout'', hout', hout]
    omega

/-- Every symbol makes the output longer, but for the end of the block. -/
theorem decodeSymbol_does (hcap : cap < 2 ^ 32) (hmax : lengths.length ≤ 288) (sym : Nat)
    (h : Held src cap s) :
    Does src cap (fun ok t => ok = true → s.out.o < t.out.o)
      (decodeSymbol (Model.Inflate.huffBuild lengths) cap sym) s := by
  unfold decodeSymbol
  refine Ends.ite (fun _ => ?_) fun _ => decodeMatch_does hcap hmax sym h
  refine Ends.reads_bind (Ends.ite (fun _ => does_pure h (by simp)) fun hroom => ?_)
  have hput : (s.out.put (UInt8.ofNat sym)).o = s.out.o + 1 := Nat.mod_eq_of_lt (by have := h.out; omega)
  have hheld : Held src cap { s with out := s.out.put (UInt8.ofNat sym) } := ⟨h.buf, h.pos, by simp only [hput]; omega⟩
  apply does_emit h (inRange_output (by omega)) trivial trivial (by simp)
  apply does_change hheld id (le_refl _) (by simp only [hput]; omega)
  exact does_pure (Q := fun ok t => ok = true → s.out.o < t.out.o) hheld fun _ => by simp only [hput]; omega

/-- The symbols of a block are read until its end, as long as there is output room. -/
theorem decodeBlockStream_does (hcap : cap < 2 ^ 32) {litLengths distLengths : List Nat}
    (hlit : litLengths.length ≤ 288) (hdist : distLengths.length ≤ 288) (rounds : Nat)
    (h : Held src cap s) :
    Does src cap (fun outcome _ => cap - s.out.o < rounds → outcome ≠ .unfinished)
      (decodeBlockStream (Model.Inflate.huffBuild litLengths) (Model.Inflate.huffBuild distLengths) cap rounds) s := by
  induction rounds generalizing s with
  | zero => exact does_pure h fun hlt => absurd hlt (Nat.not_lt_zero _)
  | succ rounds ih =>
    unfold decodeBlockStream
    apply does_bind (huffDecode_does hlit h)
    intro sym t ht hout
    cases sym with
    | none => exact does_pure ht (by simp)
    | some sym =>
      refine Ends.ite (fun _ => does_pure ht (by simp)) fun _ => ?_
      apply does_bind (decodeSymbol_does hcap hdist sym ht)
      intro ok u hu hwritten
      refine Ends.ite (fun hok => ?_) fun _ => does_pure hu (by simp)
      have hless := hwritten hok
      have hroom := hu.out
      rw [hout] at hless
      exact (ih hu).mono fun outcome _ houtcome hlt => houtcome (by omega)

/-- The copy of a stored block moves both places by its length. -/
theorem copyStored_spec (len : Nat) (hpos : s.br.pos < 2 ^ 32) (hout : s.out.o + len < 2 ^ 32) :
    ((copyStored len).state s).br = { s.br with pos := (s.br.pos + len) % 2 ^ 32 } ∧
      ((copyStored len).state s).out.o = s.out.o + len ∧ ∀ a, a ∈ (copyStored len).log s ↔
        ∃ k, k < len ∧ (a = .input ((s.br.pos + k) % 2 ^ 32) ∨ a = .output (s.out.o + k)) := by
  induction len generalizing s with
  | zero =>
    refine ⟨?_, rfl, by simp [copyStored]⟩
    rw [Nat.add_zero, Nat.mod_eq_of_lt hpos]
    rfl
  | succ len ih =>
    have hput : (s.out.put (UInt8.ofNat (byteAt s.br.buf s.br.pos))).o = s.out.o + 1 :=
      Nat.mod_eq_of_lt (by omega)
    obtain ⟨hbr, ho, hlog⟩ := @ih
      { br := { s.br with pos := (s.br.pos + 1) % 2 ^ 32 },
        out := s.out.put (UInt8.ofNat (byteAt s.br.buf s.br.pos)) }
      (Nat.mod_lt _ (by decide)) (by simp only [hput]; omega)
    simp only [hput] at ho hlog
    refine ⟨?_, ?_, ?_⟩
    · simp only [copyStored, state_bind, result_reads, state_reads, state_emit, state_modifies,
        id_eq, hbr,
        Nat.mod_add_mod]
      congr 2
      omega
    · simp only [copyStored, state_bind, result_reads, state_reads, state_emit, state_modifies,
        id_eq, ho]
      omega
    · intro a
      simp only [copyStored, log_bind, result_reads, state_reads, log_reads, state_emit, log_emit,
        state_modifies, log_modifies, id_eq, List.nil_append, List.cons_append, List.mem_cons, hlog,
        Nat.mod_add_mod]
      constructor
      · rintro (rfl | rfl | ⟨k, hk, hak⟩)
        · exact ⟨0, Nat.succ_pos len, Or.inl (by rw [Nat.add_zero, Nat.mod_eq_of_lt hpos])⟩
        · exact ⟨0, Nat.succ_pos len, Or.inr rfl⟩
        · refine ⟨k + 1, by omega, ?_⟩
          rwa [show s.br.pos + (k + 1) = s.br.pos + 1 + k by omega,
            show s.out.o + (k + 1) = s.out.o + 1 + k by omega]
      · rintro ⟨k, hk, hak⟩
        cases k with
        | zero =>
          rw [Nat.add_zero, Nat.add_zero, Nat.mod_eq_of_lt hpos] at hak
          exact hak.imp id Or.inl
        | succ k =>
          refine Or.inr (Or.inr ⟨k, by omega, ?_⟩)
          rwa [show s.br.pos + 1 + k = s.br.pos + (k + 1) by omega,
            show s.out.o + 1 + k = s.out.o + (k + 1) by omega]

/-- After a read past the input nothing is read any more. -/
theorem Moves.strayed (h : Moves src cap t l' u) (herr : s.br.err = true → t.br.err = true)
    (hout : s.out.o ≤ t.out.o) (hnot : Access.exhausted ∉ l)
    (hstored : ∀ a ∈ l, Stored src.length a) {a b : Access} (ha : a ∈ l ++ l')
    (hstray : ¬ InRange src.length cap a) (hb : b ∈ l) (hwrap : ¬ StoredFits b) :
    Moves src cap s (l ++ l') u := by
  refine ⟨h.held, ⟨fun hin => absurd (hin a ha) hstray, fun hfits => ?_⟩, ?_,
    fun he => h.err (herr he), ?_, fun hfits => ?_,
    hout.trans h.out⟩
  · exact absurd (hfits b (List.mem_append_left _ hb)) hwrap
  · exact List.forall_mem_append.mpr ⟨hstored, h.stored⟩
  · intro he
    rcases List.mem_append.mp he with he | he
    · exact absurd he hnot
    · exact h.exhausted he
  · exact absurd (hfits b (List.mem_append_left _ hb)) hwrap

/-- The contents of a stored block are copied when they and the room for them are there. -/
theorem storedContents_does (hsrc : src.length < 2 ^ 32) (hcap : cap < 2 ^ 32) {len : Nat}
    (nlen : Nat) (hlen : len < 2 ^ 16) (h : Held src cap s) :
    Does src cap (fun outcome _ => outcome ≠ .unfinished) (storedContents cap len nlen) s := by
  have hpos := h.pos
  have hout := h.out
  have hroom : (cap + 2 ^ 32 - s.out.o) % 2 ^ 32 = cap - s.out.o := by
    rw [show cap + 2 ^ 32 - s.out.o = cap - s.out.o + 2 ^ 32 by omega, Nat.add_mod_right]
    exact Nat.mod_eq_of_lt (by omega)
  unfold storedContents
  refine Ends.ite (fun _ => does_pure h (by simp)) fun _ => Ends.reads_bind ?_
  simp only [id_eq, hroom, h.buf]
  by_cases hfit : len ≤ cap - s.out.o → s.br.pos + len < 2 ^ 32
  · refine does_emit (a := .contents s.br.pos len (cap - s.out.o)) h trivial hfit ⟨hpos,
      hlen⟩ (by simp) ?_
    refine Ends.ite (fun _ => does_pure h (by simp)) fun hin => Ends.ite
      (fun _ => does_pure h (by simp)) fun hsmall => ?_
    rw [Nat.mod_eq_of_lt (hfit (by omega))] at hin
    obtain ⟨hbr, ho, hlog⟩ := copyStored_spec (s := s) len (by omega) (by omega)
    rw [Nat.mod_eq_of_lt (hfit (by omega))] at hbr
    have hmoves : Moves src cap s ((copyStored len).log s) ((copyStored len).state s) := by
      refine ⟨⟨?_, ?_, by omega⟩, ⟨fun _ a ha => ?_, fun _ a ha => ?_⟩, fun a ha => ?_, ?_,
        fun he => ?_, fun _ => ?_, by omega⟩
      · rw [hbr]
        exact h.buf
      · rw [hbr]
        simp only
        omega
      · obtain ⟨k, hk, rfl | rfl⟩ := (hlog a).mp ha
        · trivial
        · trivial
      · obtain ⟨k, hk, rfl | rfl⟩ := (hlog a).mp ha
        · rw [Nat.mod_eq_of_lt (by omega)]
          exact inRange_input (by omega)
        · exact inRange_output (by omega)
      · obtain ⟨k, hk, rfl | rfl⟩ := (hlog a).mp ha
        · trivial
        · trivial
      · rw [hbr]
        exact id
      · obtain ⟨k, hk, heq | heq⟩ := (hlog _).mp he
        · cases heq
        · cases heq
      · simp only [left, hbr]
        omega
    refine does_bind (Q := fun _ _ => True) ⟨hmoves, trivial⟩ fun _ t ht _ => does_pure ht (by simp)
  · -- the block is refused by neither check, and the byte behind the input is copied
    have hsmall : len ≤ cap - s.out.o := by
      by_contra hbig
      exact hfit fun hle => absurd hle hbig
    have hwrap : 2 ^ 32 ≤ s.br.pos + len := by
      by_contra hlt
      exact hfit fun _ => by omega
    have hmod : (s.br.pos + len) % 2 ^ 32 = s.br.pos + len - 2 ^ 32 := by
      rw [Nat.mod_eq_sub_mod hwrap]
      exact Nat.mod_eq_of_lt (by omega)
    rw [if_neg (show ¬ (s.br.pos + len) % 2 ^ 32 > src.length by omega), if_neg (by omega)]
    obtain ⟨hbr, ho, hlog⟩ := copyStored_spec (s := s) len (by omega) (by omega)
    have hheld : Held src cap ((copyStored len).state s) := by
      refine ⟨?_, ?_, by omega⟩
      · rw [hbr]
        exact h.buf
      · rw [hbr]
        simp only
        omega
    have hmem : Access.input src.length ∈ (copyStored len).log s := by
      refine (hlog _).mpr ⟨src.length - s.br.pos, by omega, Or.inl ?_⟩
      rw [show s.br.pos + (src.length - s.br.pos) = src.length by omega, Nat.mod_eq_of_lt hsrc]
    have hnot : Access.exhausted ∉ Access.contents s.br.pos len (cap - s.out.o) :: (copyStored len).log s := by
      intro he
      rcases List.mem_cons.mp he with heq | he
      · cases heq
      · obtain ⟨k, hk, heq | heq⟩ := (hlog _).mp he
        · cases heq
        · cases heq
    have hstored : ∀ a ∈ Access.contents s.br.pos len (cap - s.out.o) :: (copyStored len).log s, Stored src.length a := by
      intro a ha
      rcases List.mem_cons.mp ha with rfl | ha
      · exact ⟨hpos, hlen⟩
      · obtain ⟨k, hk, rfl | rfl⟩ := (hlog a).mp ha
        · trivial
        · trivial
    have hmoves : Moves src cap s ((Access.contents s.br.pos len (cap - s.out.o) :: (copyStored len).log s) ++ [])
        ((copyStored len).state s) := by
      refine (Moves.refl hheld).strayed (by rw [hbr]; exact id) (by omega) hnot hstored
        (a := .input src.length) (b := .contents s.br.pos len (cap - s.out.o)) ?_ (lt_irrefl _) List.mem_cons_self hfit
      rw [List.append_nil]
      exact List.mem_cons_of_mem _ hmem
    refine ⟨?_, by simp⟩
    simpa using hmoves

def advanced (s : State) : State :=
  { s with br := { s.br with bb := 0, bl := 0, pos := (s.br.pos + 4) % 2 ^ 32 } }

def headerLog (pos : Nat) : List Access :=
  [.header pos, .input pos, .input (pos + 1), .input (pos + 2), .input (pos + 3)]

/-- A stored block whose length fields are there. -/
theorem storedBlock_passed (hpass : ¬ (s.br.pos + 4) % 2 ^ 32 > s.br.buf.length) :
    (storedBlock cap).result s =
      (storedContents cap (readU16 s.br.buf s.br.pos) (readU16 s.br.buf (s.br.pos + 2))).result
        (advanced s) ∧
      (storedBlock cap).state s =
      (storedContents cap (readU16 s.br.buf s.br.pos) (readU16 s.br.buf (s.br.pos + 2))).state
        (advanced s) ∧ (storedBlock cap).log s = headerLog s.br.pos ++
        (storedContents cap (readU16 s.br.buf s.br.pos) (readU16 s.br.buf (s.br.pos + 2))).log
          (advanced s) := by
  unfold storedBlock brAlign
  refine ⟨?_, ?_, ?_⟩
  · simp only [result_bind, result_reads, state_modifies, state_reads, state_emit, hpass, if_false]
    rfl
  · simp only [state_bind, result_reads, state_modifies, state_reads, state_emit, hpass, if_false]
    rfl
  · simp only [log_bind, result_reads, state_modifies, log_modifies, state_reads, log_reads,
      state_emit, log_emit, hpass,
      if_false]
    rfl

theorem readU16_lt (d : List UInt8) (o : Nat) : readU16 d o < 2 ^ 16 := by
  have h0 := byteAt_lt d o
  have h1 := byteAt_lt d (o + 1)
  unfold readU16
  omega

/-- A stored block always ends. -/
theorem storedBlock_does (hsrc : src.length < 2 ^ 32) (hcap : cap < 2 ^ 32) (h : Held src cap s) :
    Does src cap (fun outcome _ => outcome ≠ .unfinished) (storedBlock cap) s := by
  have hpos := h.pos
  by_cases hpass : (s.br.pos + 4) % 2 ^ 32 > s.br.buf.length
  · -- the sum does not wrap around, or else it would be small
    have hfit : s.br.pos + 4 < 2 ^ 32 := by
      rw [h.buf] at hpass
      omega
    unfold storedBlock brAlign
    have hheld : Held src cap { s with br := { s.br with bb := 0, bl := 0 } } := h.same rfl rfl rfl
    apply does_change hheld id (by simp only [left]; omega) (le_refl _)
    apply Ends.reads_bind
    refine does_emit (a := .header s.br.pos) hheld trivial hfit hpos (by simp) ?_
    rw [if_pos hpass]
    exact does_pure hheld (by simp)
  · obtain ⟨hresult, hstate, hlog⟩ := @storedBlock_passed cap s hpass
    have hheld : Held src cap (advanced s) := by
      refine ⟨h.buf, ?_, h.out⟩
      rw [h.buf] at hpass
      exact Nat.le_of_not_lt hpass
    obtain ⟨hmoves, hq⟩ := storedContents_does hsrc hcap (readU16 s.br.buf (s.br.pos + 2))
      (readU16_lt s.br.buf s.br.pos) hheld
    refine ⟨?_, by rw [hresult]; exact hq⟩
    rw [hlog, hstate]
    have hstored : ∀ a ∈ headerLog s.br.pos, Stored src.length a := by
      simp [headerLog, Stored, hpos]
    by_cases hfit : s.br.pos + 4 < 2 ^ 32
    · rw [Nat.mod_eq_of_lt hfit, h.buf] at hpass
      refine Moves.trans ⟨hheld, ?_, hstored, id, by simp [headerLog], fun _ => ?_,
        le_refl _⟩ hmoves
      · simp only [headerLog, List.forall_mem_cons, InRange, StoredFits, hfit, List.not_mem_nil,
          false_imp_iff, implies_true,
          and_true, true_and, iff_true]
        omega
      · simp only [left, advanced, Nat.mod_eq_of_lt hfit]
        omega
    · refine hmoves.strayed id (le_refl _) (by simp [headerLog]) hstored
        (a := .input (s.br.pos + 3)) (b := .header s.br.pos) ?_ ?_
        (by simp [headerLog]) hfit
      · exact List.mem_append_left _ (by simp [headerLog])
      · simp only [InRange]
        omega

/-- A stored block that is done was inside the input, unless an offset wrapped. -/
theorem storedBlock_done (hfits : ∀ a ∈ (storedBlock cap).log s, StoredFits a)
    (hdone : (storedBlock cap).result s = .done) : 0 < left s := by
  have hheader : s.br.pos + 4 < 2 ^ 32 := by
    refine hfits (.header s.br.pos) ?_
    simp [storedBlock, brAlign]
  by_cases hpass : (s.br.pos + 4) % 2 ^ 32 > s.br.buf.length
  · simp only [storedBlock, brAlign, result_bind, result_reads, state_modifies, state_reads,
      state_emit, hpass, if_true,
      result_pure] at hdone
    cases hdone
  · rw [Nat.mod_eq_of_lt hheader] at hpass
    unfold left
    omega

/-- A block with the fixed codes. -/
theorem fixedBlock_does (hcap : cap < 2 ^ 32) (h : Held src cap s) :
    Does src cap (fun outcome _ => cap < limit → outcome ≠ .unfinished)
      (fixedBlock limit cap) s := by
  have hlit : ∀ len ∈ Model.Inflate.fixedLitlenLengths, len < 16 := by decide +kernel
  have hlength : Model.Inflate.fixedLitlenLengths.length ≤ 288 := by
    rw [Model.Inflate.fixedLitlenLengths, List.length_map, List.length_range]
  unfold fixedBlock
  apply does_bind (huffBuild_does hlit hlength h)
  rintro lit t ht ⟨rfl, rfl⟩
  have hdist : ∀ len ∈ List.replicate 30 5, len < 16 := by simp
  apply does_bind (huffBuild_does hdist (by simp) ht)
  rintro dist u hu ⟨rfl, rfl⟩
  exact (decodeBlockStream_does hcap hlength (by simp) limit hu).mono fun outcome _ houtcome hlt =>
    houtcome (by omega)

/-- A block with its own codes. -/
theorem dynamicBlock_does (hcap : cap < 2 ^ 32) (h : Held src cap s) :
    Does src cap (fun outcome _ => cap + 320 < limit → outcome ≠ .unfinished)
      (dynamicBlock limit cap) s := by
  unfold dynamicBlock
  apply does_bind (brRead_does 5 h)
  rintro hlit t ht ⟨-, hlitLt, -⟩
  apply does_bind (brRead_does 5 ht)
  rintro hdist u hu ⟨-, hdistLt, -⟩
  refine Ends.ite (fun _ => does_pure hu (by simp)) fun hsum => ?_
  apply does_bind (readDynamicLengths_does limit _ hu)
  rintro ⟨outcome, lengths⟩ v hv ⟨-, hlengths, hreturns⟩
  cases outcome with
  | failed => exact does_pure hv (by simp)
  | unfinished => exact does_pure hv fun hlt => hreturns (by omega)
  | done =>
    have htake : (lengths.take (hlit + 257)).length ≤ 288 := by
      rw [List.length_take]
      omega
    have hdrop : ((lengths.drop (hlit + 257)).take (hdist + 1)).length ≤ 288 := by
      rw [List.length_take]
      omega
    apply does_bind (huffBuild_does (fun len hlen => hlengths len (List.mem_of_mem_take hlen)) htake hv)
    rintro lit w hw ⟨rfl, rfl⟩
    apply does_bind (huffBuild_does (fun len hlen => hlengths len (List.mem_of_mem_drop (List.mem_of_mem_take hlen))) hdrop hw)
    rintro dist x hx ⟨rfl, rfl⟩
    exact (decodeBlockStream_does hcap htake hdrop limit hx).mono fun outcome _ houtcome hlt =>
      houtcome (by omega)

/-- A block of any kind. -/
theorem inflateBlock_does (hsrc : src.length < 2 ^ 32) (hcap : cap < 2 ^ 32) {limit : Nat}
    (btype : Nat) (h : Held src cap s) :
    Does src cap (fun outcome _ => cap + 320 < limit → outcome ≠ .unfinished)
      (inflateBlock limit btype cap) s := by
  unfold inflateBlock
  split
  · exact (storedBlock_does hsrc hcap h).mono fun _ _ houtcome _ => houtcome
  · exact (fixedBlock_does hcap h).mono fun _ _ houtcome hlt => houtcome (by omega)
  · exact dynamicBlock_does hcap h
  · exact does_pure h (by simp)

/-- The blocks of a stream, read with accesses in range. -/
theorem inflateFrom_does (hsrc : src.length < 2 ^ 32) (hcap : cap < 2 ^ 32) (limit rounds : Nat)
    (h : Held src cap s) :
    Does src cap (fun outcome t => outcome = .done → t.br.err = false)
      (inflateFrom limit cap rounds) s := by
  induction rounds generalizing s with
  | zero => exact does_pure h (by simp)
  | succ rounds ih =>
    unfold inflateFrom
    apply does_bind (brRead_does 1 h)
    rintro bfinal t ht -
    apply does_bind (brRead_does 2 ht)
    rintro btype u hu -
    apply does_bind (inflateBlock_does hsrc hcap btype hu)
    rintro outcome v hv -
    cases outcome with
    | failed => exact does_pure hv (by simp)
    | unfinished => exact does_pure hv (by simp)
    | done =>
      refine Ends.ite (fun _ => ?_) fun _ => ih hv
      refine Ends.reads_bind (Ends.ite (fun _ => does_pure hv (by simp)) fun herr => ?_)
      exact does_pure (Q := fun outcome t => outcome = Outcome.done → t.br.err = false) hv fun _ =>
        by simpa using herr

/-- With a round for every bit of the input, the decoder returns. -/
theorem inflateFrom_returns (hsrc : src.length < 2 ^ 32) (hcap : cap < 2 ^ 32)
    (hlimit : cap + 320 < limit) (rounds : Nat) (h : Held src cap s) (hleft : left s < rounds)
    (hfits : ∀ a ∈ (inflateFrom limit cap rounds).log s, StoredFits a) :
    (inflateFrom limit cap rounds).result s ≠ .unfinished := by
  induction rounds generalizing s with
  | zero => exact absurd hleft (Nat.not_lt_zero _)
  | succ rounds ih =>
    unfold inflateFrom at hfits ⊢
    obtain ⟨hmoves, -, -, hfirst⟩ := brRead_does 1 h
    simp only [result_bind, log_bind, List.forall_mem_append] at hfits ⊢
    obtain ⟨hfits1, hfits2, hfits3, hfits4⟩ := hfits
    generalize (brRead 1).result s = bfinal at *
    generalize (brRead 1).state s = t at *
    obtain ⟨hmoves', -, -, hsecond⟩ := brRead_does 2 hmoves.held
    generalize (brRead 2).result t = btype at *
    generalize (brRead 2).state t = u at *
    obtain ⟨hmoves'', hblock⟩ := @inflateBlock_does src cap u hsrc hcap limit btype hmoves'.held
    have hdone : (inflateBlock limit btype cap).result u = .done →
        left ((inflateBlock limit btype cap).state u) < left s := by
      intro hdone
      have hblockLeft := hmoves''.left_le hfits3
      rcases hfirst with hfirst | ⟨-, hshort, hsame⟩
      · rcases hsecond with hsecond | ⟨-, -, hsame'⟩
        · omega
        · omega
      · rcases hsecond with hsecond | ⟨rfl, -, hsame'⟩
        · omega
        · -- behind the end of the input a stored block is begun
          have := storedBlock_done hfits3 hdone
          omega
    generalize (inflateBlock limit btype cap).result u = outcome at *
    generalize (inflateBlock limit btype cap).state u = v at *
    cases outcome with
    | failed => simp
    | unfinished => exact absurd rfl (hblock hlimit)
    | done =>
      simp only at hfits4 ⊢
      split
      · simp only [result_bind]
        split
        · simp
        · simp
      · next hfinal =>
          rw [if_neg hfinal] at hfits4
          have hless := hdone rfl
          exact ih hmoves''.held (by omega) hfits4

end

theorem held_start (src : Buffer) (out : Memory) (outcap : UInt32) :
    Held src.val outcap.toNat (start src out) :=
  ⟨rfl, Nat.zero_le _, Nat.zero_le _⟩

/-- `inflate_raw` from its start. -/
theorem inflateRaw_does (limit : Nat) (src : Buffer) (out : Memory) (outcap : UInt32) :
    Does src.val outcap.toNat (fun outcome t => outcome = .done → t.br.err = false)
      (inflateFrom limit outcap.toNat limit)
      (start src out) :=
  inflateFrom_does src.property outcap.toNat_lt limit limit (held_start src out outcap)

/-- A length that is not negative as an int is itself. -/
theorem toInt_nonneg {n : Nat} (h : n < 2 ^ 32) (hnonneg : 0 ≤ toInt n) : toInt n = (n : Int) := by
  unfold toInt at *
  rw [Int.bmod_def] at *
  omega

/-- `inflate_raw` is robust if and only if no stored block it comes to ends at offset 2^32 or
beyond. -/
theorem robust_iff (src : Buffer) (out : Memory) (outcap : UInt32) :
    Robust src out outcap ↔ NoWrap src out outcap := by
  have hcap := outcap.toNat_lt
  constructor
  · intro h limit
    exact (inflateRaw_does limit src out outcap).1.accesses.mp (h.inRange limit)
  · intro h
    refine ⟨⟨8 * src.val.length + outcap.toNat + 321, fun more hmore => ?_⟩, fun limit => ?_,
      fun limit n hn hnonneg => ?_⟩
    · have hreturns := inflateFrom_returns src.property hcap (show outcap.toNat + 320 < more by omega) more
        (held_start src out outcap) (by simp only [left, start]; omega) (h more)
      unfold inflateRaw
      split
      · next heq => exact absurd heq hreturns
      · simp
      · simp
    · exact (inflateRaw_does limit src out outcap).1.accesses.mpr (h limit)
    · obtain ⟨hmoves, herr⟩ := inflateRaw_does limit src out outcap
      have hroom := hmoves.held.out
      unfold inflateRaw at hn
      split at hn
      · exact absurd hn (by simp)
      · obtain rfl := Option.some.inj hn
        exact absurd hnonneg (by decide)
      · next heq =>
          obtain rfl := Option.some.inj hn
          have hsize := toInt_nonneg (by omega) hnonneg
          refine ⟨by omega, fun he => ?_⟩
          exact Bool.false_ne_true ((herr heq).symm.trans (hmoves.exhausted he))

def zeroBlocks (n : Nat) : List UInt8 := (List.replicate n [0x00, 0x00, 0x00, 0xFF, 0xFF]).flatten

theorem length_zeroBlocks (n : Nat) : (zeroBlocks n).length = 5 * n := by
  simp [zeroBlocks, List.length_flatten, mul_comm]

/-- A row of empty stored blocks, cut at one of them. -/
theorem zeroBlocks_split {n k : Nat} (h : k < n) (tail : List UInt8) :
    zeroBlocks n ++ tail = zeroBlocks k ++
      ([0x00, 0x00, 0x00, 0xFF, 0xFF] ++ (zeroBlocks (n - k - 1) ++ tail)) := by
  have hn : n = k + (1 + (n - k - 1)) := by omega
  conv_lhs => rw [hn]
  simp [zeroBlocks, List.replicate_add]

def atByte (src : List UInt8) (pos : Nat) (out : Out) : State := ⟨⟨src, pos, 0, 0, false⟩, out⟩

section

variable {src : List UInt8} {pos : Nat} {out : Out}

def behindHeader (src : List UInt8) (pos : Nat) (out : Out) : State :=
  ⟨⟨src, pos + 1, 0, 5, false⟩, out⟩

/-- A zero byte is the header of a stored block that is not the last. -/
theorem brRead_atByte (hmore : pos < src.length) (hbyte : byteAt src pos = 0) :
    (brRead 1).result (atByte src pos out) = 0 ∧
      (brRead 2).result ((brRead 1).state (atByte src pos out)) = 0 ∧
      (brRead 2).state ((brRead 1).state (atByte src pos out)) = behindHeader src pos out := by
  have hnot : ¬ src.length ≤ pos := by omega
  have hfirst : (brRead 1).result (atByte src pos out) = 0 ∧
      (brRead 1).state (atByte src pos out) = ⟨⟨src, pos + 1, 0, 7, false⟩, out⟩ := by
    simp [brRead, brFill, atByte, hnot, hbyte]
  rw [hfirst.2]
  refine ⟨hfirst.1, ?_⟩
  simp [brRead, brFill, behindHeader]

/-- The accesses of the first block are accesses of the stream. -/
theorem mem_inflateFrom_of_stored (hmore : pos < src.length) (hbyte : byteAt src pos = 0)
    (limit cap rounds : Nat) (ha : a ∈ (storedBlock cap).log (behindHeader src pos out)) :
    a ∈ (inflateFrom limit cap (rounds + 1)).log (atByte src pos out) := by
  obtain ⟨-, htype, hstate⟩ := @brRead_atByte src pos out hmore hbyte
  unfold inflateFrom
  simp only [log_bind, htype, hstate, inflateBlock, List.mem_append]
  exact Or.inr (Or.inr (Or.inl ha))

/-- The accesses behind the first block are accesses of the stream. -/
theorem mem_inflateFrom_of_next (hmore : pos < src.length) (hbyte : byteAt src pos = 0)
    (limit cap rounds : Nat) (hdone : (storedBlock cap).result (behindHeader src pos out) = .done)
    (ha : a ∈ (inflateFrom limit cap rounds).log ((storedBlock cap).state (behindHeader src pos out))) :
    a ∈ (inflateFrom limit cap (rounds + 1)).log (atByte src pos out) := by
  obtain ⟨hfinal, htype, hstate⟩ := @brRead_atByte src pos out hmore hbyte
  unfold inflateFrom
  simp only [log_bind, hfinal, htype, hstate, inflateBlock, hdone, List.mem_append]
  exact Or.inr (Or.inr (Or.inr ha))

end

/-- An empty stored block leads to the next one. -/
theorem inflateFrom_zeroBlock {n k : Nat} (h : k < n) (tail : List UInt8)
    (hn : 5 * n + tail.length < 2 ^ 32) (limit cap rounds : Nat) (out : Out)
    (ha : a ∈ (inflateFrom limit cap rounds).log (atByte (zeroBlocks n ++
      tail) (5 * (k + 1)) out)) :
    a ∈ (inflateFrom limit cap (rounds + 1)).log (atByte (zeroBlocks n ++ tail) (5 * k) out) := by
  have hlength : (zeroBlocks n ++ tail).length = 5 * n + tail.length := by
    rw [List.length_append, length_zeroBlocks]
  have hbyte : byteAt (zeroBlocks n ++ tail) (5 * k) = 0 := by
    have hget := getD_append_add (zeroBlocks k) ([0x00, 0x00, 0x00, 0xFF, 0xFF] ++ (zeroBlocks (n - k - 1) ++ tail)) 0
    rw [← zeroBlocks_split h, length_zeroBlocks, Nat.add_zero] at hget
    rw [byteAt, hget]
    simp
  have hlen : readU16 (zeroBlocks n ++ tail) (5 * k + 1) = 0 := by
    have hget := readU16_append (zeroBlocks k) ([0x00, 0x00, 0x00, 0xFF, 0xFF] ++ (zeroBlocks (n - k - 1) ++ tail)) 1
    rw [← zeroBlocks_split h, length_zeroBlocks] at hget
    rw [hget]
    simp [readU16, byteAt]
  have hnlen : readU16 (zeroBlocks n ++ tail) (5 * k + 1 + 2) = 0xFFFF := by
    have hget := readU16_append (zeroBlocks k) ([0x00, 0x00, 0x00, 0xFF, 0xFF] ++ (zeroBlocks (n - k - 1) ++ tail)) 3
    rw [← zeroBlocks_split h, length_zeroBlocks] at hget
    rw [hget]
    simp [readU16, byteAt]
  have hmore : 5 * k < (zeroBlocks n ++ tail).length := by omega
  have hnext : (5 * k + 1 + 4) % 2 ^ 32 = 5 * (k + 1) := by
    rw [Nat.mod_eq_of_lt (by omega)]
    omega
  have hinside : ¬ 5 * (k + 1) > (zeroBlocks n ++ tail).length := by omega
  have hstored : (storedBlock cap).result (behindHeader (zeroBlocks n ++ tail) (5 * k) out) =
      .done ∧
      (storedBlock cap).state (behindHeader (zeroBlocks n ++ tail) (5 * k) out) =
        atByte (zeroBlocks n ++ tail) (5 * (k + 1)) out := by
    obtain ⟨hresult, hstate, -⟩ := @storedBlock_passed cap (behindHeader (zeroBlocks n ++ tail) (5 * k) out)
      (by simp only [behindHeader, hnext]; exact hinside)
    have hcontents : ¬ (zeroBlocks n ++ tail).length < (5 * (k + 1) + 0) % 2 ^ 32 := by
      rw [Nat.add_zero, Nat.mod_eq_of_lt (by omega)]
      exact hinside
    have hsum : ¬ (0 + 0xFFFF ≠ 0xFFFF) := by decide
    rw [hresult, hstate]
    simp only [behindHeader, advanced, hlen, hnlen, hnext, storedContents, hsum, result_bind,
      state_bind, result_reads,
      state_reads, state_emit, id_eq, hcontents, if_false, Nat.not_lt_zero, gt_iff_lt, copyStored, state_pure, result_pure]
    exact ⟨trivial, rfl⟩
  apply mem_inflateFrom_of_next hmore hbyte limit cap rounds hstored.1
  rw [hstored.2]
  exact ha

/-- A row of empty stored blocks leads behind them. -/
theorem inflateFrom_zeroBlocks {n : Nat} (tail : List UInt8) (hn : 5 * n + tail.length < 2 ^ 32)
    (limit cap : Nat) (out : Out) (rounds more : Nat) (hmore : more ≤ n)
    (ha : a ∈ (inflateFrom limit cap rounds).log (atByte (zeroBlocks n ++ tail) (5 * n) out)) :
    a ∈ (inflateFrom limit cap (rounds + more)).log
      (atByte (zeroBlocks n ++ tail) (5 * (n - more)) out) := by
  induction more with
  | zero => exact ha
  | succ more ih =>
    apply inflateFrom_zeroBlock (by omega) tail hn
    rw [show n - (more + 1) + 1 = n - more by omega]
    exact ih (by omega)

/-- At the end of the source the decoder still asks for the header of a block. -/
theorem header_mem_inflateFrom (src : List UInt8) (limit cap rounds : Nat) (out : Out) :
    Access.header src.length ∈ (inflateFrom limit cap (rounds + 1)).log
      (atByte src src.length out) := by
  have hfirst : (brRead 1).state (atByte src src.length out) =
      ⟨⟨src, src.length, 0, 0, true⟩, out⟩ := by
    simp [brRead, brFill, atByte]
  have hsecond : (brRead 2).result ⟨⟨src, src.length, 0, 0, true⟩, out⟩ = 0 ∧
      (brRead 2).state ⟨⟨src, src.length, 0, 0, true⟩, out⟩ = ⟨⟨src, src.length, 0, 0, true⟩, out⟩ := by
    simp [brRead, brFill]
  unfold inflateFrom
  simp only [log_bind, hfirst, hsecond.1, hsecond.2, inflateBlock, List.mem_append]
  refine Or.inr (Or.inr (Or.inl ?_))
  simp [storedBlock, brAlign]

theorem length_zeroBlocks_lt : (zeroBlocks 858993459 ++ []).length < 2 ^ 32 := by
  rw [List.append_nil, length_zeroBlocks]
  decide

/-- Stored blocks without contents up to the last byte that an input may have: the next one is taken
to be in the input. -/
theorem not_robust_zeroBlocks :
    ¬ Robust ⟨zeroBlocks 858993459 ++ [], length_zeroBlocks_lt⟩ (fun _ => 0) 0 := by
  intro h
  have hlength : (zeroBlocks 858993459 ++ []).length = 5 * 858993459 := by
    rw [List.append_nil, length_zeroBlocks]
  have hend := header_mem_inflateFrom (zeroBlocks 858993459 ++ []) (1 + 858993459) 0 0 ⟨0, fun _ => 0⟩
  rw [hlength] at hend
  have hmem := inflateFrom_zeroBlocks [] (by decide) (1 + 858993459) 0 ⟨0, fun _ => 0⟩ 1 858993459 (le_refl _) hend
  rw [Nat.sub_self] at hmem
  have hfits := (inflateRaw_does (1 + 858993459) ⟨zeroBlocks 858993459 ++ [], length_zeroBlocks_lt⟩ (fun _ => 0) 0).1.accesses.mp
    (h.inRange (1 + 858993459)) _ hmem
  exact absurd hfits (by simp only [StoredFits]; decide)

end Monios.Analysis.InflateAccess
