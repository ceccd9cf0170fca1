import Monios.Library.Deflate
import Monios.Model.Zcomp

/-!
# The codec of the page compressor

What the encoder emits is the stream of the greedy parse of its input, as long as the stream has
less than `2 ^ 32` bytes, and the decoder expands the stream of any parse. So they are inverse to
each other but for outputs of about four gigabytes, where the encoder's check of the capacity wraps
around.
-/

set_option autoImplicit false

namespace Monios.Analysis.Zcomp

open Monios.Library Monios.Library.Lz77 Monios.Model.Zcomp

variable {out : Out} {cap : Nat} {bytes : List UInt8} {ts : List (Token UInt8)} {t : Token UInt8} {n : Nat} {p : Nat}

def pending (src : List UInt8) (litStart i : Nat) : List (Token UInt8) :=
  if i - litStart > 0 then [.literal ((src.drop litStart).take (i - litStart))] else []

def tokensFrom (src : List UInt8) : Nat → Nat → Nat → List (Token UInt8)
  | 0, i, litStart => pending src litStart i
  | rounds + 1, i, litStart =>
    if i < src.length then
      if (bestMatch src i).1 ≥ minMatch then
        pending src litStart i ++ .copy (bestMatch src i).2 (bestMatch src i).1 ::
          tokensFrom src rounds (i + (bestMatch src i).1) (i + (bestMatch src i).1)
      else if i + 1 - litStart ≥ literalMax then
        .literal ((src.drop litStart).take (i + 1 - litStart)) :: tokensFrom src rounds (i + 1) (i + 1)
      else tokensFrom src rounds (i + 1) litStart
    else pending src litStart i

def tokens (src : List UInt8) : List (Token UInt8) := tokensFrom src src.length 0 0

def Fits : Token UInt8 → Prop
  | .literal bytes => 0 < bytes.length ∧ bytes.length ≤ literalMax
  | .copy offset count => 0 < offset ∧ offset ≤ window ∧ minMatch ≤ count ∧ count ≤ maxMatch

section

variable {src : List UInt8} {start i : Nat}

/-- The length that is extended to is one over which both places agree. -/
theorem extendMatch_spec (n len : Nat) :
    len ≤ extendMatch src start i n len ∧ extendMatch src start i n len ≤ len + n ∧
    ∀ k, len ≤ k → k < extendMatch src start i n len →
      i + k < src.length ∧ src.getD (start + k) 0 = src.getD (i + k) 0 := by
  induction n generalizing len with
  | zero => exact ⟨Nat.le_refl _, Nat.le_refl _, fun k hge hlt => absurd hlt (Nat.not_lt_of_le hge)⟩
  | succ n ih =>
    unfold extendMatch
    split
    · next hmatch =>
      obtain ⟨hle, hmax, hall⟩ := ih (len + 1)
      refine ⟨by omega, by omega, fun k hge hlt => ?_⟩
      by_cases hk : k = len
      · rw [hk]
        exact hmatch
      · exact hall k (by omega) hlt
    · exact ⟨Nat.le_refl _, Nat.le_add_right _ _, fun k hge hlt => absurd hlt (Nat.not_lt_of_le hge)⟩

structure IsMatch (src : List UInt8) (i len off : Nat) : Prop where
  pos : 0 < off
  back : off ≤ i
  near : off ≤ window
  max : len ≤ maxMatch
  fits : i + len ≤ src.length
  same : ∀ k, k < len → src[i - off + k]? = src[i + k]?

/-- `matchLen` is the length of a match. -/
theorem isMatch_matchLen {off : Nat} (hi : i ≤ src.length) (hpos : 0 < off) (hoff : off ≤ i)
    (hnear : off ≤ window) :
    IsMatch src i (matchLen src i off) off := by
  obtain ⟨-, hmax, hall⟩ := @extendMatch_spec src (i - off) i maxMatch 0
  unfold matchLen
  generalize extendMatch src (i - off) i maxMatch 0 = len at hmax hall ⊢
  refine ⟨hpos, hoff, hnear, by omega, ?_, fun k hk => ?_⟩
  · by_contra hover
    have hlast := (hall (len - 1) (Nat.zero_le _) (by omega)).1
    omega
  · obtain ⟨hin, hsame⟩ := hall k (Nat.zero_le k) hk
    have hback : i - off + k < src.length := by omega
    rw [List.getD_eq_getElem?_getD, List.getD_eq_getElem?_getD, List.getElem?_eq_getElem hback,
      List.getElem?_eq_getElem hin, Option.getD_some, Option.getD_some] at hsame
    rw [List.getElem?_eq_getElem hback, List.getElem?_eq_getElem hin, hsame]

/-- The search keeps a best match that is one. -/
theorem findMatch_spec (hi : i ≤ src.length) (n off : Nat) (best : Nat × Nat) (hoff : 0 < off)
    (hback : off + n ≤ i + 1) (hnear : off + n ≤ window + 1)
    (hbest : best.1 = 0 ∨ IsMatch src i best.1 best.2) :
    (findMatch src i n off best).1 = 0 ∨
      IsMatch src i (findMatch src i n off best).1 (findMatch src i n off best).2 := by
  induction n generalizing off best with
  | zero => exact hbest
  | succ n ih =>
    have hmatch : IsMatch src i (matchLen src i off) off :=
      isMatch_matchLen hi hoff (by omega) (by omega)
    unfold findMatch
    split
    · split
      · exact Or.inr hmatch
      · exact ih (off + 1) _ (Nat.succ_pos off) (by omega) (by omega) (Or.inr hmatch)
    · exact ih (off + 1) best (Nat.succ_pos off) (by omega) (by omega) hbest

/-- A match that is long enough to be used is one. -/
theorem isMatch_bestMatch (hi : i ≤ src.length) (hlen : (bestMatch src i).1 ≥ minMatch) :
    IsMatch src i (bestMatch src i).1 (bestMatch src i).2 := by
  unfold bestMatch at hlen ⊢
  have hbound : (if i < window then i else window) ≤ i ∧ (if i < window then i else window) ≤ window := by
    split
    · omega
    · omega
  generalize (if i < window then i else window) = n at hlen hbound ⊢
  apply (findMatch_spec hi n 1 (0, 0) Nat.one_pos (by omega) (by omega) (Or.inl rfl)).resolve_left
  unfold minMatch at hlen
  omega

variable {litStart : Nat}

/-- The pending literal stands for the bytes since it was begun. -/
theorem covers_pending (hle : litStart ≤ i) : Covers src litStart i (pending src litStart i) := by
  unfold pending
  split
  · exact Covers.literal hle
  · obtain rfl : litStart = i := by omega
    exact Covers.nil

/-- A literal that is not longer than the limit fits its length byte. -/
theorem fits_literal {q : Nat} (hlt : litStart < q) (hmax : q - litStart ≤ literalMax)
    (hq : q ≤ src.length) :
    Fits (.literal ((src.drop litStart).take (q - litStart))) := by
  have hlen : ((src.drop litStart).take (q - litStart)).length = q - litStart := by
    rw [List.length_take, List.length_drop]
    omega
  unfold Fits
  dsimp only
  omega

/-- What is pending fits. -/
theorem fits_pending (hi : i ≤ src.length) (hmax : i - litStart ≤ literalMax) :
    ∀ t ∈ pending src litStart i, Fits t := by
  unfold pending
  intro t ht
  split at ht
  · next hlt =>
    rw [List.mem_singleton] at ht
    rw [ht]
    exact fits_literal (by omega) hmax hi
  · cases ht

/-- The tokens from a place on stand for the rest of the source, and each of them fits. -/
theorem tokensFrom_spec (rounds : Nat) (hrounds : src.length - i ≤ rounds) (hle : litStart ≤ i)
    (hi : i ≤ src.length) (hmax : i - litStart < literalMax) :
    Covers src litStart src.length (tokensFrom src rounds i litStart) ∧
      ∀ t ∈ tokensFrom src rounds i litStart, Fits t := by
  induction rounds generalizing i litStart with
  | zero =>
    obtain rfl : i = src.length := by omega
    exact ⟨covers_pending hle, fits_pending hi (Nat.le_of_lt hmax)⟩
  | succ rounds ih =>
    unfold tokensFrom
    split
    · next hlt =>
      split
      · next hlen =>
        have hmatch := isMatch_bestMatch hi hlen
        have hcopy : Covers src i (i + (bestMatch src i).1) [.copy (bestMatch src i).2 (bestMatch src i).1] :=
          Covers.copy hmatch.pos hmatch.back hmatch.fits hmatch.same
        have hstep : src.length - (i + (bestMatch src i).1) ≤ rounds := by
          unfold minMatch at hlen
          omega
        obtain ⟨hcovers, hfits⟩ := ih hstep (Nat.le_refl _) hmatch.fits (by rw [Nat.sub_self]; decide)
        refine ⟨(covers_pending hle).append (hcopy.append hcovers), fun t ht => ?_⟩
        rcases List.mem_append.mp ht with ht | ht
        · exact fits_pending hi (Nat.le_of_lt hmax) t ht
        · rcases List.mem_cons.mp ht with rfl | ht
          · exact ⟨hmatch.pos, hmatch.near, hlen, hmatch.max⟩
          · exact hfits t ht
      · split
        · obtain ⟨hcovers, hfits⟩ := ih (by omega) (Nat.le_refl (i + 1)) hlt (by rw [Nat.sub_self]; decide)
          have hliteral : Covers src litStart (i + 1) [.literal ((src.drop litStart).take (i + 1 - litStart))] :=
            Covers.literal (by omega)
          refine ⟨hliteral.append hcovers, fun t ht => ?_⟩
          rcases List.mem_cons.mp ht with rfl | ht
          · exact fits_literal (by omega) (by omega) hlt
          · exact hfits t ht
        · exact ih (by omega) (by omega) hlt (by omega)
    · obtain rfl : i = src.length := by omega
      exact ⟨covers_pending hle, fits_pending hi (Nat.le_of_lt hmax)⟩

end

/-- The tokens of a page expand to the page. -/
theorem expandAll_tokens (src : List UInt8) : expandAll (tokens src) [] = some src := by
  have hcovers := (@tokensFrom_spec src 0 0 src.length (Nat.le_refl _) (Nat.le_refl 0) (Nat.zero_le _) (by decide)).1
  unfold Covers at hcovers
  rw [List.take_zero, List.take_length] at hcovers
  exact hcovers

/-- The tokens of a page fit their length bytes. -/
theorem fits_tokens (src : List UInt8) : ∀ t ∈ tokens src, Fits t :=
  (tokensFrom_spec src.length (Nat.le_refl _) (Nat.le_refl 0) (Nat.zero_le _) (by decide)).2

def tokenBytes : Token UInt8 → List UInt8
  | .literal bytes => tagLiteral :: UInt8.ofNat bytes.length :: bytes
  | .copy offset count =>
    [tagMatch, UInt8.ofNat (offset % 256), UInt8.ofNat (offset / 256 % 16), UInt8.ofNat (count - minMatch)]

def tokensBytes (ts : List (Token UInt8)) : List UInt8 := ts.flatMap tokenBytes

def stream (ts : List (Token UInt8)) : List UInt8 := tokensBytes ts ++ [tagEnd]

def putToken (cap : Nat) : Token UInt8 → Out → Except Memory Out
  | .literal bytes => putLiteral cap bytes
  | .copy offset count => putMatch cap offset count

def putAll (cap : Nat) : List (Token UInt8) → Out → Except Memory Out
  | [], out => putEnd cap out
  | t :: ts, out => (putToken cap t out).bind (putAll cap ts)

/-- Flushing the literal is writing its token. -/
theorem putAll_pending (src : List UInt8) (cap litStart i : Nat) (ts : List (Token UInt8))
    (out : Out) :
    putAll cap (pending src litStart i ++ ts) out =
      (flushLiteral src cap litStart i out).bind (putAll cap ts) := by
  unfold pending flushLiteral
  split
  · rfl
  · rfl

theorem putAll_tail (src : List UInt8) (cap litStart i : Nat) (out : Out) :
    (flushLiteral src cap litStart i out).bind (putEnd cap) =
      putAll cap (pending src litStart i) out := by
  have happend := putAll_pending src cap litStart i [] out
  rw [List.append_nil] at happend
  exact happend.symm

/-- The encoder writes the tokens one after the other. -/
theorem encodeFrom_eq (src : List UInt8) (cap rounds i litStart : Nat) (out : Out) :
    encodeFrom src cap rounds i litStart out =
      putAll cap (tokensFrom src rounds i litStart) out := by
  induction rounds generalizing i litStart out with
  | zero => exact putAll_tail src cap litStart i out
  | succ rounds ih =>
    unfold encodeFrom tokensFrom
    split
    · dsimp only
      split
      · rw [putAll_pending]
        change (flushLiteral src cap litStart i out).bind (fun out =>
          (putMatch cap (bestMatch src i).2 (bestMatch src i).1 out).bind fun out =>
            encodeFrom src cap rounds (i + (bestMatch src i).1) (i + (bestMatch src i).1) out) = _
        congr 1
        funext out
        change _ = (putMatch cap (bestMatch src i).2 (bestMatch src i).1 out).bind _
        congr 1
        funext out
        exact ih _ _ out
      · split
        · change (putLiteral cap ((src.drop litStart).take (i + 1 - litStart)) out).bind (fun out =>
            encodeFrom src cap rounds (i + 1) (i + 1) out) = (putLiteral cap _ out).bind _
          congr 1
          funext out
          exact ih _ _ out
        · exact ih _ _ out
    · exact putAll_tail src cap litStart i out

structure Stored (out : Out) (bytes : List UInt8) : Prop where
  o : out.o = bytes.length
  dst : ∀ k, k < bytes.length → bytes[k]? = some (out.dst k)

/-- Nothing is stored at the beginning. -/
theorem Stored.nil (dst : Memory) : Stored ⟨0, dst⟩ [] :=
  ⟨rfl, fun k hk => absurd hk (Nat.not_lt_zero k)⟩

/-- A byte goes behind what is stored. -/
theorem Stored.put (h : Stored out bytes) (b : UInt8) (hlen : bytes.length + 1 < 2 ^ 32) :
    Stored (out.put b) (bytes ++ [b]) := by
  unfold Out.put
  refine ⟨?_, fun k hk => ?_⟩
  · rw [List.length_append, h.o]
    exact Nat.mod_eq_of_lt hlen
  · dsimp only
    rw [List.length_append, List.length_singleton] at hk
    by_cases hlast : k < bytes.length
    · rw [List.getElem?_append_left hlast, h.dst k hlast, Function.update_of_ne]
      have ho := h.o
      omega
    · obtain rfl : k = bytes.length := by omega
      rw [← h.o, Function.update_self, h.o, List.getElem?_concat_length]

/-- Several bytes go behind what is stored. -/
theorem Stored.copyIn (h : Stored out bytes) (more : List UInt8)
    (hlen : bytes.length + more.length < 2 ^ 32) : Stored (out.copyIn more) (bytes ++ more) := by
  unfold Out.copyIn
  refine ⟨?_, fun k hk => ?_⟩
  · rw [List.length_append, h.o]
    exact Nat.mod_eq_of_lt hlen
  · dsimp only
    rw [List.length_append] at hk
    rw [h.o]
    by_cases hlast : k < bytes.length
    · rw [List.getElem?_append_left hlast, h.dst k hlast, if_neg (by omega)]
    · have hin : k - bytes.length < more.length := by omega
      rw [List.getElem?_append_right (by omega), if_pos (by omega), List.getElem?_eq_getElem hin,
        List.getD_eq_getElem?_getD, List.getElem?_eq_getElem hin, Option.getD_some]

/-- What is stored is what the output holds. -/
theorem Stored.bytes_eq (h : Stored out bytes) :
    (List.range out.o).map out.dst = bytes := by
  apply List.ext_getElem?
  intro k
  rw [List.getElem?_map, h.o]
  by_cases hk : k < bytes.length
  · rw [List.getElem?_range hk, h.dst k hk]
    rfl
  · rw [List.getElem?_eq_none (by rw [List.length_range]; omega), List.getElem?_eq_none (by omega)]
    rfl

theorem Stored.put_two (h : Stored out bytes) (b c : UInt8)
    (hlen : bytes.length + 2 < 2 ^ 32) : Stored ((out.put b).put c) (bytes ++ [b, c]) := by
  have hfirst := h.put b (by omega)
  have hlen' : (bytes ++ [b]).length + 1 < 2 ^ 32 := by
    rw [List.length_append, List.length_singleton]
    omega
  have hsecond := hfirst.put c hlen'
  rw [List.append_assoc] at hsecond
  exact hsecond

/-- A token that is written stands behind the stream so far. -/
theorem putToken_stored {out out' : Out} (h : Stored out bytes)
    (hlen : bytes.length + (tokenBytes t).length < 2 ^ 32) (hput : putToken cap t out = .ok out') :
    Stored out' (bytes ++ tokenBytes t) := by
  cases t with
  | literal items =>
    have hlen' : bytes.length + (items.length + 2) < 2 ^ 32 := hlen
    change putLiteral cap items out = .ok out' at hput
    unfold putLiteral at hput
    split at hput
    · cases hput
    · obtain rfl := Except.ok.inj hput
      have hhead := h.put_two tagLiteral (UInt8.ofNat items.length) (by omega)
      have hfit : (bytes ++ [tagLiteral, UInt8.ofNat items.length]).length + items.length <
          2 ^ 32 := by
        rw [List.length_append, List.length_cons, List.length_singleton]
        omega
      have hstored := hhead.copyIn items hfit
      rw [List.append_assoc] at hstored
      exact hstored
  | copy offset count =>
    have hlen' : bytes.length + 4 < 2 ^ 32 := hlen
    change putMatch cap offset count out = .ok out' at hput
    unfold putMatch at hput
    split at hput
    · cases hput
    · obtain rfl := Except.ok.inj hput
      have hhead := h.put_two tagMatch (UInt8.ofNat (offset % 256)) (by omega)
      have hfit : (bytes ++ [tagMatch, UInt8.ofNat (offset % 256)]).length + 2 < 2 ^ 32 := by
        rw [List.length_append, List.length_cons, List.length_singleton]
        omega
      have hstored := hhead.put_two (UInt8.ofNat (offset / 256 % 16)) (UInt8.ofNat (count - minMatch)) hfit
      rw [List.append_assoc] at hstored
      exact hstored

/-- The place after a token, modulo 2^32, is inside the capacity. -/
theorem putToken_o {out out' : Out} (hput : putToken cap t out = .ok out') :
    out'.o = (out.o + (tokenBytes t).length) % 2 ^ 32 ∧ out'.o ≤ cap := by
  cases t with
  | literal items =>
    change putLiteral cap items out = .ok out' at hput
    unfold putLiteral at hput
    split at hput
    · cases hput
    · next hcap =>
      obtain rfl := Except.ok.inj hput
      have ho : (((out.put tagLiteral).put (UInt8.ofNat items.length)).copyIn items).o =
          (((out.o + 1) % 2 ^ 32 + 1) % 2 ^ 32 + items.length) % 2 ^ 32 := rfl
      have hlen : (tokenBytes (.literal items)).length = items.length + 2 := rfl
      rw [ho, hlen]
      omega
  | copy offset count =>
    change putMatch cap offset count out = .ok out' at hput
    unfold putMatch at hput
    split at hput
    · cases hput
    · next hcap =>
      obtain rfl := Except.ok.inj hput
      have ho : ((((out.put tagMatch).put (UInt8.ofNat (offset % 256))).put (UInt8.ofNat (offset / 256 % 16))).put
          (UInt8.ofNat (count - minMatch))).o =
          ((((out.o + 1) % 2 ^ 32 + 1) % 2 ^ 32 + 1) % 2 ^ 32 + 1) % 2 ^ 32 := rfl
      have hlen : (tokenBytes (.copy offset count)).length = 4 := rfl
      rw [ho, hlen]
      omega

theorem putEnd_o {out out' : Out} (hput : putEnd cap out = .ok out') :
    out'.o = (out.o + 1) % 2 ^ 32 ∧ out'.o ≤ cap := by
  unfold putEnd at hput
  split at hput
  · cases hput
  · next hcap =>
    obtain rfl := Except.ok.inj hput
    exact ⟨rfl, Nat.le_of_not_lt hcap⟩

theorem tokensBytes_cons (t : Token UInt8) (ts : List (Token UInt8)) :
    tokensBytes (t :: ts) = tokenBytes t ++ tokensBytes ts := rfl

theorem stream_cons (t : Token UInt8) (ts : List (Token UInt8)) :
    stream (t :: ts) = tokenBytes t ++ stream ts := by
  unfold stream
  rw [tokensBytes_cons, List.append_assoc]

/-- Tokens that are all written make the stream. -/
theorem putAll_stored {out out' : Out} (h : Stored out bytes)
    (hlen : bytes.length + (stream ts).length < 2 ^ 32) (hput : putAll cap ts out = .ok out') :
    Stored out' (bytes ++ stream ts) := by
  induction ts generalizing out bytes with
  | nil =>
    change putEnd cap out = .ok out' at hput
    unfold putEnd at hput
    split at hput
    · cases hput
    · obtain rfl := Except.ok.inj hput
      exact h.put tagEnd hlen
  | cons t ts ih =>
    rw [stream_cons, List.length_append] at hlen
    change (putToken cap t out).bind (putAll cap ts) = .ok out' at hput
    cases hnext : putToken cap t out with
    | error dst =>
      rw [hnext] at hput
      cases hput
    | ok next =>
      rw [hnext] at hput
      rw [stream_cons, ← List.append_assoc]
      apply ih (putToken_stored h (by omega) hnext)
      · rw [List.length_append]
        omega
      · exact hput

/-- The places after all the tokens are inside the capacity, each modulo 2^32. -/
theorem putAll_o {out out' : Out} (hput : putAll cap ts out = .ok out') :
    out'.o = (out.o + (stream ts).length) % 2 ^ 32 ∧ out'.o ≤ cap ∧
      ∀ us, us <+: ts → (us ≠ [] → (out.o + (tokensBytes us).length) % 2 ^ 32 ≤ cap) := by
  induction ts generalizing out with
  | nil =>
    obtain ⟨ho, hle⟩ := putEnd_o hput
    exact ⟨ho, hle, fun us hprefix hne => absurd (List.prefix_nil.mp hprefix) hne⟩
  | cons t ts ih =>
    change (putToken cap t out).bind (putAll cap ts) = .ok out' at hput
    cases hnext : putToken cap t out with
    | error dst =>
      rw [hnext] at hput
      cases hput
    | ok next =>
      rw [hnext] at hput
      obtain ⟨ho, hle⟩ := putToken_o hnext
      obtain ⟨hend, hcap, hall⟩ := ih hput
      rw [stream_cons, List.length_append]
      refine ⟨by omega, hcap, fun us hprefix hne => ?_⟩
      cases us with
      | nil => exact absurd rfl hne
      | cons u us =>
        rw [List.cons_prefix_cons] at hprefix
        obtain ⟨rfl, hprefix⟩ := hprefix
        rw [tokensBytes_cons, List.length_append]
        by_cases hnil : us = []
        · rw [hnil]
          have hzero : (tokensBytes []).length = 0 := rfl
          omega
        · have hus := hall us hprefix hnil
          omega

/-- Copying a match, also an overlapping one, is what its token expands to. -/
theorem copyMatch_stored {offset : Nat} (hpos : 0 < offset) (len : Nat) {content : List UInt8}
    (h : Stored out content) (hoffset : offset ≤ content.length)
    (hlen : content.length + len < 2 ^ 32) :
    Stored (copyMatch offset len out) (copyBack offset len content) := by
  induction len generalizing out content with
  | zero => exact h
  | succ len ih =>
    have hbyte : content[content.length - offset]?.toList = [out.dst (out.o - offset)] := by
      rw [h.dst _ (by omega), h.o]
      rfl
    unfold copyMatch copyBack
    rw [hbyte]
    apply ih (h.put _ (by omega))
    · rw [List.length_append]
      omega
    · rw [List.length_append, List.length_singleton]
      omega

/-- The decoder's round for a literal. -/
theorem decodeFrom_literal (hcap : cap < 2 ^ 32) {items before rest content : List UInt8}
    (hmax : items.length ≤ literalMax) (hstored : Stored out content)
    (hroom : content.length + items.length ≤ cap)
    (hlen : (before ++ (tokenBytes (.literal items) ++ rest)).length < 2 ^ 32) (rounds : Nat) :
    decodeFrom (before ++ (tokenBytes (.literal items) ++ rest)) cap
      (rounds + 1) before.length out =
      decodeFrom (before ++ (tokenBytes (.literal items) ++ rest)) cap rounds
        (before ++ tokenBytes (.literal items)).length (out.copyIn items) := by
  have hsize : (before ++ (tokenBytes (.literal items) ++ rest)).length =
      before.length + (items.length + 2 + rest.length) := by
    rw [List.length_append, List.length_append]
    rfl
  have hend : (before ++ tokenBytes (.literal items)).length =
      before.length + 1 + 1 + items.length := by
    rw [List.length_append]
    change before.length + (items.length + 2) = _
    omega
  have htag : (before ++ (tokenBytes (.literal items) ++ rest)).getD before.length 0 = tagLiteral :=
    getD_append_add before _ 0
  have hcount : ((before ++ (tokenBytes (.literal items) ++ rest)).getD (before.length + 1) 0).toNat = items.length := by
    rw [getD_append_add before _ 1]
    change (UInt8.ofNat items.length).toNat = items.length
    unfold literalMax at hmax
    rw [UInt8.toNat_ofNat']
    omega
  have hitems : ((before ++ (tokenBytes (.literal items) ++ rest)).drop (before.length + 1 + 1)).take items.length = items := by
    rw [Nat.add_assoc, ← List.drop_drop, List.drop_left]
    change (items ++ rest).take items.length = items
    exact List.take_left
  have ho := hstored.o
  conv_lhs => unfold decodeFrom
  generalize before ++ (tokenBytes (.literal items) ++ rest) = src at hlen hsize htag hcount hitems ⊢
  dsimp only
  rw [if_pos (by omega), htag, if_neg (by decide), if_pos rfl, if_neg (by omega), hcount,
    if_neg (by omega), hitems, hend]

/-- The decoder's round for a match. -/
theorem decodeFrom_copy (hcap : cap < 2 ^ 32) {offset count : Nat}
    {before rest content : List UInt8} (hfits : Fits (.copy offset count))
    (hstored : Stored out content) (hback : offset ≤ content.length)
    (hroom : content.length + count ≤ cap) (hlen : (before ++
      (tokenBytes (.copy offset count) ++ rest)).length < 2 ^ 32) (rounds : Nat) :
    decodeFrom (before ++ (tokenBytes (.copy offset count) ++ rest)) cap
    (rounds + 1) before.length out =
      decodeFrom (before ++ (tokenBytes (.copy offset count) ++ rest)) cap rounds
        (before ++ tokenBytes (.copy offset count)).length (copyMatch offset count out) := by
  obtain ⟨hpos, hnear, hmin, hmax⟩ := hfits
  unfold window at hnear
  unfold minMatch at hmin
  unfold maxMatch at hmax
  have hsize : (before ++ (tokenBytes (.copy offset count) ++ rest)).length =
      before.length + (4 + rest.length) := by
    rw [List.length_append, List.length_append]
    rfl
  have hend : (before ++ tokenBytes (.copy offset count)).length = before.length + 1 + 3 := by
    rw [List.length_append]
    rfl
  have htag : (before ++ (tokenBytes (.copy offset count) ++ rest)).getD before.length 0 =
      tagMatch :=
    getD_append_add before _ 0
  have hlow : ((before ++ (tokenBytes (.copy offset count) ++ rest)).getD (before.length + 1) 0).toNat = offset % 256 := by
    rw [getD_append_add before _ 1]
    change (UInt8.ofNat (offset % 256)).toNat = offset % 256
    rw [UInt8.toNat_ofNat']
    omega
  have hhigh : ((before ++ (tokenBytes (.copy offset count) ++ rest)).getD (before.length + 1 + 1) 0).toNat =
      offset / 256 % 16 := by
    rw [Nat.add_assoc, getD_append_add before _ 2]
    change (UInt8.ofNat (offset / 256 % 16)).toNat = offset / 256 % 16
    rw [UInt8.toNat_ofNat']
    omega
  have hcount : ((before ++ (tokenBytes (.copy offset count) ++ rest)).getD (before.length + 1 + 2) 0).toNat + minMatch =
      count := by
    rw [Nat.add_assoc, getD_append_add before _ 3]
    change (UInt8.ofNat (count - minMatch)).toNat + minMatch = count
    unfold minMatch
    rw [UInt8.toNat_ofNat']
    omega
  have ho := hstored.o
  conv_lhs => unfold decodeFrom
  generalize before ++ (tokenBytes (.copy offset count) ++ rest) = src at hlen hsize htag hlow hhigh hcount ⊢
  dsimp only
  have hoffset : offset % 256 + offset / 256 % 16 % 16 * 256 = offset := by omega
  rw [if_pos (by omega), htag, if_neg (by decide), if_neg (by decide), if_pos rfl,
    if_neg (by omega), hlow, hhigh, hcount,
    hoffset, if_neg (by omega), hend]

/-- The decoder turns a stream of tokens into what they expand to. -/
theorem decodeFrom_stream {cap : Nat} (hcap : cap < 2 ^ 32) {ts : List (Token UInt8)}
    {before content final : List UInt8} {out : Out} (hfits : ∀ t ∈ ts, Fits t)
    (hexpand : expandAll ts content = some final) (hstored : Stored out content)
    (hfinal : final.length ≤ cap) (hlen : (before ++ stream ts).length < 2 ^ 32) (rounds : Nat)
    (hrounds : ts.length < rounds) :
    ∃ out', decodeFrom (before ++ stream ts) cap rounds before.length out = (out'.o, out'.dst) ∧
      Stored out' final := by
  induction ts generalizing before content out rounds with
  | nil =>
    obtain ⟨rounds, rfl⟩ := Nat.exists_eq_succ_of_ne_zero (Nat.ne_of_gt hrounds)
    obtain rfl := Option.some.inj hexpand
    refine ⟨out, ?_, hstored⟩
    have htag : (before ++ stream []).getD before.length 0 = tagEnd :=
      getD_append_add before (stream []) 0
    have hlt : before.length < (before ++ stream []).length := by
      rw [List.length_append]
      exact Nat.lt_add_of_pos_right Nat.one_pos
    unfold decodeFrom
    rw [if_pos hlt]
    dsimp only
    rw [htag, if_pos rfl]
  | cons t ts ih =>
    obtain ⟨rounds, rfl⟩ := Nat.exists_eq_succ_of_ne_zero (Nat.ne_of_gt (Nat.zero_lt_of_lt hrounds))
    have hhead := hfits t List.mem_cons_self
    have htail : ∀ u ∈ ts, Fits u := fun u hu => hfits u (List.mem_cons_of_mem t hu)
    have hrounds' : ts.length < rounds := Nat.lt_of_succ_lt_succ hrounds
    rw [stream_cons] at hlen ⊢
    unfold expandAll at hexpand
    cases t with
    | literal items =>
      have hle := @length_le_expandAll _ ts _ _ hexpand
      rw [List.length_append] at hle
      rw [decodeFrom_literal hcap hhead.2 hstored (by omega) hlen rounds, ← List.append_assoc]
      rw [← List.append_assoc] at hlen
      exact ih htail hexpand (hstored.copyIn items (by omega)) hlen rounds hrounds'
    | copy offset count =>
      unfold Token.expand at hexpand
      dsimp only at hexpand
      split at hexpand
      · next hback =>
        rw [Option.bind_some] at hexpand
        have hle := length_le_expandAll hexpand
        rw [length_copyBack hback.1 count hback.2] at hle
        rw [decodeFrom_copy hcap hhead hstored hback.2 (by omega) hlen rounds, ← List.append_assoc]
        rw [← List.append_assoc] at hlen
        exact ih htail hexpand (copyMatch_stored hback.1 count hstored hback.2 (by omega)) hlen rounds hrounds'
      · cases hexpand

theorem length_lt_stream (ts : List (Token UInt8)) : ts.length < (stream ts).length := by
  induction ts with
  | nil => exact Nat.one_pos
  | cons t ts ih =>
    have hpos : 0 < (tokenBytes t).length := by
      cases t with
      | literal items => exact Nat.succ_pos _
      | copy offset count => exact Nat.succ_pos _
    rw [stream_cons, List.length_append, List.length_cons]
    omega

/-- What the encoder returns can be decoded: a result other than zero is within the capacity, and
the decoder returns the length of the input, and its bytes, when it has room for them. -/
def RoundTrip (src : Buffer) (cap : UInt32) : Prop :=
  ∀ (dst : Memory) (n : Nat) (out : Memory), zcompLzEncode src dst cap = (n, out) → 0 < n →
    n ≤ cap.toNat ∧ ∀ (dst' : Memory) (dcap : UInt32), src.val.length ≤ dcap.toNat →
      ∀ (m : Nat) (back : Memory), zcompLzDecode ((List.range n).map out) dst' dcap = (m, back) →
        m = src.val.length ∧ (List.range m).map back = src.val

/-- The checks of the capacity are what they should be: the stream of the greedy parse has less than
`2 ^ 32` bytes, or else, modulo `2 ^ 32`, a token or the stream ends behind the capacity or the
stream has no bytes, so that zero is returned. -/
def NoWrap (src : List UInt8) (cap : Nat) : Prop :=
  (stream (tokens src)).length < 2 ^ 32 ∨ (stream (tokens src)).length % 2 ^ 32 = 0 ∨
    cap < (stream (tokens src)).length % 2 ^ 32 ∨ ∃ us, us <+: tokens src ∧ cap < (tokensBytes us).length % 2 ^ 32

/-- A non-zero result means that all tokens and the end mark were written. -/
theorem zcompLzEncode_pos {src : Buffer} {dst out : Memory} {cap : UInt32}
    (h : zcompLzEncode src dst cap = (n, out)) (hn : 0 < n) :
    putAll cap.toNat (tokens src.val) ⟨0, dst⟩ = .ok ⟨n, out⟩ := by
  unfold zcompLzEncode at h
  rw [encodeFrom_eq] at h
  split at h
  · obtain ⟨rfl, -⟩ := Prod.mk.inj h
    cases hn
  · split at h
    · obtain ⟨rfl, -⟩ := Prod.mk.inj h
      cases hn
    · next last hput =>
      obtain ⟨rfl, rfl⟩ := Prod.mk.inj h
      exact hput

/-- A token takes at most three bytes for each byte that it stands for. -/
theorem length_tokensBytes_le {content final : List UInt8} (hfits : ∀ t ∈ ts, Fits t)
    (h : expandAll ts content = some final) :
    (tokensBytes ts).length + 3 * content.length ≤ 3 * final.length := by
  induction ts generalizing content with
  | nil =>
    obtain rfl := Option.some.inj h
    exact Nat.le_of_eq (Nat.zero_add _)
  | cons t ts ih =>
    have hhead := hfits t List.mem_cons_self
    have htail : ∀ u ∈ ts, Fits u := fun u hu => hfits u (List.mem_cons_of_mem t hu)
    rw [tokensBytes_cons, List.length_append]
    unfold expandAll at h
    cases t with
    | literal items =>
      have hle := @ih (content ++ items) htail h
      have hpos := hhead.1
      rw [List.length_append] at hle
      simp only [tokenBytes, List.length_cons]
      omega
    | copy offset count =>
      unfold Token.expand at h
      dsimp only at h
      split at h
      · next hback =>
        have hle := ih htail h
        rw [length_copyBack hback.1 count hback.2] at hle
        have hcount := hhead.2.2.1
        unfold minMatch at hcount
        simp only [tokenBytes, List.length_cons, List.length_nil]
        omega
      · cases h

/-- The stream is at most three times as long as the page, and one byte. -/
theorem length_stream_tokens_le (src : List UInt8) :
    (stream (tokens src)).length ≤ 3 * src.length + 1 := by
  have hle := length_tokensBytes_le (fits_tokens src) (expandAll_tokens src)
  unfold stream
  rw [List.length_append, List.length_singleton]
  rw [List.length_nil] at hle
  omega

/-- A stream that is shorter than 2^32 decodes to the source. -/
theorem zcompLzDecode_of_encode {src : Buffer} {dst out : Memory} {cap : UInt32} {n : Nat}
    (hencode : zcompLzEncode src dst cap = (n, out)) (hn : 0 < n)
    (hlen : (stream (tokens src.val)).length < 2 ^ 32) (dst' : Memory) {dcap : UInt32}
    (hdcap : src.val.length ≤ dcap.toNat) :
    ∃ back, zcompLzDecode ((List.range n).map out) dst' dcap = (src.val.length, back) ∧
      (List.range src.val.length).map back = src.val := by
  have hput := zcompLzEncode_pos hencode hn
  have hstored := putAll_stored (Stored.nil dst) (by rw [List.length_nil, Nat.zero_add]; exact hlen) hput
  rw [List.nil_append] at hstored
  have hbytes := hstored.bytes_eq
  dsimp only at hbytes
  have hne : stream (tokens src.val) ≠ [] := by
    intro hnil
    have hlt := length_lt_stream (tokens src.val)
    rw [hnil] at hlt
    cases hlt
  obtain ⟨last, hlast, hfinal⟩ := @decodeFrom_stream dcap.toNat dcap.toNat_lt (tokens src.val) [] [] src.val
    ⟨0, dst'⟩ (fits_tokens src.val) (expandAll_tokens src.val) (Stored.nil dst') hdcap hlen
    (stream (tokens src.val)).length (length_lt_stream (tokens src.val))
  refine ⟨last.dst, ?_, ?_⟩
  · unfold zcompLzDecode
    rw [hbytes, if_neg hne, ← hfinal.o]
    exact hlast
  · rw [← hfinal.o]
    exact hfinal.bytes_eq

/-- What `zcomp_lz_encode` has encoded, `zcomp_lz_decode` decodes to the same bytes, when no
capacity check wraps. -/
theorem zcomp_roundTrip (src : Buffer) (cap : UInt32) (h : NoWrap src.val cap.toNat) :
    RoundTrip src cap := by
  intro dst n out hencode hn
  have hput := zcompLzEncode_pos hencode hn
  obtain ⟨hend, hcap, hall⟩ := putAll_o hput
  dsimp only at hend hcap
  refine ⟨hcap, fun dst' dcap hdcap m back hdecode => ?_⟩
  rcases h with hlen | hzero | hover | ⟨us, hprefix, hover⟩
  · obtain ⟨last, hlast, hbytes⟩ := zcompLzDecode_of_encode hencode hn hlen dst' hdcap
    have hsame := hlast.symm.trans hdecode
    obtain ⟨rfl, rfl⟩ := Prod.mk.inj hsame
    exact ⟨rfl, hbytes⟩
  · rw [Nat.zero_add] at hend
    omega
  · rw [Nat.zero_add] at hend
    omega
  · have hne : us ≠ [] := by
      rintro rfl
      exact absurd hover (Nat.not_lt_zero _)
    have hle := hall us hprefix hne
    dsimp only at hle
    omega

theorem zcomp_roundTrip_repeated : RoundTrip ⟨[7, 7, 7, 7, 7, 7], by decide⟩ 64 :=
  zcomp_roundTrip ⟨[7, 7, 7, 7, 7, 7], by decide⟩ 64 (Or.inl (by decide))

theorem putToken_of_max (out : Out) :
    ∃ out', putToken (2 ^ 32 - 1) t out = .ok out' ∧
      out'.o = (out.o + (tokenBytes t).length) % 2 ^ 32 := by
  cases hput : putToken (2 ^ 32 - 1) t out with
  | error dst =>
    cases t with
    | literal items =>
      change putLiteral (2 ^ 32 - 1) items out = .error dst at hput
      unfold putLiteral at hput
      rw [if_neg (by omega)] at hput
      cases hput
    | copy offset count =>
      change putMatch (2 ^ 32 - 1) offset count out = .error dst at hput
      unfold putMatch at hput
      rw [if_neg (by omega)] at hput
      cases hput
  | ok out' => exact ⟨out', rfl, (putToken_o hput).1⟩

theorem putAll_append_of_max (ts us : List (Token UInt8)) {out : Out} (ho : out.o < 2 ^ 32) :
    ∃ out', putAll (2 ^ 32 - 1) (ts ++ us) out = putAll (2 ^ 32 - 1) us out' ∧
      out'.o = (out.o + (tokensBytes ts).length) % 2 ^ 32 := by
  induction ts generalizing out with
  | nil => exact ⟨out, rfl, (Nat.mod_eq_of_lt ho).symm⟩
  | cons t ts ih =>
    obtain ⟨next, hput, hnext⟩ := putToken_of_max (t := t) out
    obtain ⟨out', hall, hend⟩ := @ih next (by omega)
    refine ⟨out', ?_, ?_⟩
    · change (putToken (2 ^ 32 - 1) t out).bind (putAll (2 ^ 32 - 1) (ts ++ us)) = _
      rw [hput]
      exact hall
    · rw [tokensBytes_cons, List.length_append]
      omega

def spread (n : Nat) : Nat := if n % 2 = 0 then n / 2 % 128 else 128 + n / 256 % 128

theorem spread_ne {x off : Nat} (hpos : 0 < off) (hmax : off ≤ window)
    (h0 : spread x = spread (x + off)) (h1 : spread (x + 1) = spread (x + 1 + off))
    (h2 : spread (x + 2) = spread (x + 2 + off)) : False := by
  unfold spread window at *
  split at h0
  · split at h0
    · rw [if_neg (by omega), if_neg (by omega)] at h1
      omega
    · omega
  · split at h0
    · omega
    · rw [if_pos (by omega), if_pos (by omega)] at h1
      rw [if_neg (by omega), if_neg (by omega)] at h2
      omega

def spreadBytes (n : Nat) : List UInt8 := (List.range n).map fun k => UInt8.ofNat (spread k)

theorem getElem?_spreadBytes {n k : Nat} (h : k < n) :
    (spreadBytes n)[k]? = some (UInt8.ofNat (spread k)) := by
  unfold spreadBytes
  rw [List.getElem?_map, List.getElem?_range h]
  rfl

theorem length_spreadBytes (n : Nat) : (spreadBytes n).length = n := by
  unfold spreadBytes
  rw [List.length_map, List.length_range]

theorem spread_lt (n : Nat) : spread n < 256 := by
  unfold spread
  split
  · omega
  · omega

theorem spread_of_getElem? {n j k : Nat} (hj : j < n) (hk : k < n)
    (h : (spreadBytes n)[j]? = (spreadBytes n)[k]?) :
    spread j = spread k := by
  rw [getElem?_spreadBytes hj, getElem?_spreadBytes hk] at h
  have htoNat := congrArg UInt8.toNat (Option.some.inj h)
  rw [UInt8.toNat_ofNat', UInt8.toNat_ofNat', Nat.mod_eq_of_lt (spread_lt j),
    Nat.mod_eq_of_lt (spread_lt k)] at htoNat
  exact htoNat

theorem bestMatch_spreadBytes {n i : Nat} (hi : i < n) :
    ¬ (bestMatch (spreadBytes n) i).1 ≥ minMatch := by
  intro hlen
  have hle : i ≤ (spreadBytes n).length := by
    rw [length_spreadBytes]
    omega
  obtain ⟨hpos, hback, hnear, -, hfits, hsame⟩ := isMatch_bestMatch hle hlen
  generalize (bestMatch (spreadBytes n) i).2 = off at hpos hback hnear hsame
  unfold minMatch at hlen
  rw [length_spreadBytes] at hfits
  have hspread (k : Nat) (hk : k < 3) : spread (i - off + k) = spread (i - off + k + off) := by
    have hindex : i - off + k + off = i + k := by omega
    rw [hindex]
    exact spread_of_getElem? (by omega) (by omega) (hsame k (by omega))
  exact spread_ne hpos hnear (hspread 0 (by omega)) (hspread 1 (by omega)) (hspread 2 (by omega))

section

variable {src : List UInt8} (hno : ∀ i, i < src.length → ¬ (bestMatch src i).1 ≥ minMatch)
include hno

theorem tokensFrom_step {i litStart : Nat} (rounds : Nat) (hi : i < src.length)
    (hshort : i + 1 - litStart < literalMax) :
    tokensFrom src (rounds + 1) i litStart = tokensFrom src rounds (i + 1) litStart := by
  conv_lhs => unfold tokensFrom
  rw [if_pos hi, if_neg (hno i hi), if_neg (Nat.not_le_of_lt hshort)]

theorem tokensFrom_steps (rounds j : Nat) (hj : p + j ≤ src.length) (hshort : j < literalMax) :
    tokensFrom src (j + rounds) p p = tokensFrom src rounds (p + j) p := by
  induction j generalizing rounds with
  | zero => rw [Nat.zero_add, Nat.add_zero]
  | succ j ih =>
    rw [Nat.add_assoc, Nat.add_comm 1, ih (rounds + 1) (by omega) (by omega)]
    exact tokensFrom_step hno rounds (by omega) (by omega)

theorem tokensFrom_chunk (rounds : Nat) (hp : p + literalMax ≤ src.length) :
    tokensFrom src (literalMax + rounds) p p =
      .literal ((src.drop p).take literalMax) :: tokensFrom src rounds (p + literalMax)
        (p + literalMax) := by
  have hsplit : literalMax + rounds = 254 + (rounds + 1) := by
    unfold literalMax
    omega
  unfold literalMax at hp
  rw [hsplit, tokensFrom_steps hno (rounds + 1) 254 (by omega) (by decide)]
  conv_lhs => unfold tokensFrom
  have hcount : p + 254 + 1 - p = literalMax := by
    unfold literalMax
    omega
  rw [if_pos (by omega), if_neg (hno _ (by omega)), hcount, if_pos (Nat.le_refl _)]
  rfl

theorem tokensFrom_chunks (rounds k : Nat) (hp : p + literalMax * k ≤ src.length) :
    ∃ ts, tokensFrom src (literalMax * k + rounds) p p =
      ts ++ tokensFrom src rounds (p + literalMax * k) (p + literalMax * k) ∧
      (tokensBytes ts).length = 257 * k := by
  induction k generalizing p with
  | zero => exact ⟨[], by rw [Nat.mul_zero, Nat.zero_add, Nat.add_zero, List.nil_append], rfl⟩
  | succ k ih =>
    have hlen : ((src.drop p).take literalMax).length = literalMax := by
      rw [List.length_take, List.length_drop]
      rw [Nat.mul_succ] at hp
      omega
    rw [Nat.mul_succ] at hp ⊢
    obtain ⟨ts, hts, hsize⟩ := ih (p := p + literalMax) (by omega)
    refine ⟨.literal ((src.drop p).take literalMax) :: ts, ?_, ?_⟩
    · rw [show literalMax * k + literalMax + rounds = literalMax + (literalMax * k + rounds) by omega,
        tokensFrom_chunk hno _ (by omega), hts, List.cons_append,
        show p + (literalMax * k + literalMax) = p + literalMax + literalMax * k by omega]
    · rw [tokensBytes_cons, List.length_append, hsize]
      change ((src.drop p).take literalMax).length + 2 + 257 * k = _
      rw [hlen]
      unfold literalMax
      omega

end

theorem tokens_spreadBytes (k : Nat) :
    ∃ ts b, tokens (spreadBytes (literalMax * k + 1)) = ts ++ [.literal [b]] ∧
      (tokensBytes ts).length = 257 * k := by
  have hno : ∀ i, i < (spreadBytes (literalMax * k + 1)).length →
      ¬ (bestMatch (spreadBytes (literalMax * k + 1)) i).1 ≥ minMatch := by
    intro i hi
    rw [length_spreadBytes] at hi
    exact bestMatch_spreadBytes hi
  have hlen := length_spreadBytes (literalMax * k + 1)
  unfold tokens
  generalize spreadBytes (literalMax * k + 1) = src at hno hlen ⊢
  obtain ⟨ts, hts, hsize⟩ := tokensFrom_chunks hno (p := 0) 1 k (by omega)
  rw [Nat.zero_add] at hts
  have hin : literalMax * k < src.length := by omega
  refine ⟨ts, src[literalMax * k], ?_, hsize⟩
  have hlast : tokensFrom src 1 (literalMax * k) (literalMax * k) =
      [.literal [src[literalMax * k]]] := by
    rw [tokensFrom_step hno 0 hin (by unfold literalMax; omega)]
    change pending src (literalMax * k) (literalMax * k + 1) = _
    unfold pending
    rw [if_pos (by omega), Nat.add_sub_cancel_left, List.drop_eq_getElem_cons hin]
    rfl
  rw [hlen, hts, hlast]

theorem putAll_wraps (b : UInt8) (ho : out.o = 2 ^ 32 - 1) :
    ∃ out', putAll (2 ^ 32 - 1) [.literal [b]] out = .ok out' ∧ out'.o = 3 ∧ out'.dst 0 = 1 := by
  obtain ⟨o, dst⟩ := out
  dsimp only at ho
  have hliteral : putLiteral (2 ^ 32 - 1) [b] ⟨o, dst⟩ =
      .ok (((Out.put ⟨o, dst⟩ tagLiteral).put (UInt8.ofNat 1)).copyIn [b]) := by
    unfold putLiteral
    rw [if_neg (by omega)]
    rfl
  have hend (out : Out) : putEnd (2 ^ 32 - 1) out = .ok (out.put tagEnd) := by
    unfold putEnd
    rw [if_neg (by omega)]
  refine ⟨(((Out.put ⟨o, dst⟩ tagLiteral).put (UInt8.ofNat 1)).copyIn [b]).put tagEnd, ?_, ?_, ?_⟩
  · change (putLiteral (2 ^ 32 - 1) [b] ⟨o, dst⟩).bind (putEnd (2 ^ 32 - 1)) = _
    rw [hliteral]
    exact hend _
  · change ((((o + 1) % 2 ^ 32 + 1) % 2 ^ 32 + 1) % 2 ^ 32 + 1) % 2 ^ 32 = 3
    omega
  · unfold Out.put Out.copyIn
    have hzero : (o + 1) % 2 ^ 32 = 0 := by omega
    dsimp only
    rw [hzero, List.length_singleton, Function.update_of_ne (by decide), if_neg (by decide),
      Function.update_self]
    rfl

theorem zcompLzDecode_of_one {out dst : Memory} (cap : UInt32) (hfirst : out 0 = 1) :
    zcompLzDecode ((List.range 3).map out) dst cap = (0, dst) := by
  have hbytes : (List.range 3).map out = [1, out 1, out 2] := by
    rw [← hfirst]
    rfl
  rw [hbytes]
  rfl

/-- Where the tokens before the last one fill the whole capacity, the check of the last one wraps
around, and what is returned cannot be decoded. -/
theorem not_roundTrip_of_tokens {src : Buffer} {b : UInt8} (hne : src.val ≠ [])
    (hts : tokens src.val = ts ++ [.literal [b]]) (hsize : (tokensBytes ts).length = 2 ^ 32 - 1) :
    ¬ RoundTrip src 0xFFFFFFFF := by
  intro h
  have hcap : (0xFFFFFFFF : UInt32).toNat = 2 ^ 32 - 1 := by decide
  obtain ⟨near, hnear, ho⟩ := @putAll_append_of_max ts [.literal [b]] ⟨0, fun _ => 0⟩ (by decide)
  rw [hsize] at ho
  obtain ⟨out, hput, hthree, hfirst⟩ := putAll_wraps b (ho.trans (by decide))
  have hencode : zcompLzEncode src (fun _ => 0) 0xFFFFFFFF = (3, out.dst) := by
    unfold zcompLzEncode
    rw [if_neg, encodeFrom_eq, hcap]
    · rw [show tokensFrom src.val src.val.length 0 0 = _ from hts, hnear, hput]
      dsimp only
      rw [hthree]
    · rintro (hnil | hsmall)
      · exact hne hnil
      · exact absurd hsmall (by decide)
  have hlen := src.property
  obtain ⟨-, hdecode⟩ := h _ 3 out.dst hencode (by decide)
  obtain ⟨hm, -⟩ := hdecode (fun _ => 0) 0xFFFFFFFF (by rw [hcap]; omega) 0 _ (zcompLzDecode_of_one _ hfirst)
  exact hne (List.eq_nil_of_length_eq_zero hm.symm)

theorem not_roundTrip_spread (k : Nat) (hk : 257 * k = 2 ^ 32 - 1)
    (hlen : (spreadBytes (literalMax * k + 1)).length < 2 ^ 32) :
    ¬ RoundTrip ⟨spreadBytes (literalMax * k + 1), hlen⟩ 0xFFFFFFFF := by
  obtain ⟨ts, b, hts, hsize⟩ := tokens_spreadBytes k
  refine not_roundTrip_of_tokens (fun hnil => ?_) hts (hsize.trans hk)
  have hlength := length_spreadBytes (literalMax * k + 1)
  have hzero : (spreadBytes (literalMax * k + 1)).length = 0 := congrArg List.length hnil
  omega

theorem length_spreadBytes_lt (h : n < 2 ^ 32) : (spreadBytes n).length < 2 ^ 32 := by
  rw [length_spreadBytes]
  exact h

theorem not_roundTrip_spreadBytes :
    ¬ RoundTrip ⟨spreadBytes (literalMax * 16711935 +
      1), length_spreadBytes_lt (by decide)⟩ 0xFFFFFFFF :=
  not_roundTrip_spread 16711935 (by decide) (length_spreadBytes_lt (by decide))

end Monios.Analysis.Zcomp
