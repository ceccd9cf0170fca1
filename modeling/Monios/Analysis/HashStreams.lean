import Mathlib.Tactic.FinCases
import Monios.Analysis.SignatureBlock
import Monios.Library.HashStandards
import Monios.Model.Hash

/-!
# Hashes of messages in pieces

Whatever the pieces of a message are, `update` and `final` make the hash of the whole, and the hash
is the one of the standard; so are the keyed hashes (`hashes_standard`). The stream is followed for
any `transform` at once (`hashFinal_foldl`), and each of the three is compared with its standard on
one block.
-/

set_option autoImplicit false

namespace Monios.Analysis.HashStreams

open Monios.Library Monios.Library.MerkleDamgard
open Monios.Library.HashStandards (littleWord bigWord littleBytes bigBytes)
open Monios.Model (wordOfBytes)
open Monios.Model.Hash

variable {m : List UInt8} {lengthBytes : UInt64 → List UInt8} {n : Nat}

section

variable {σ : Type} {transform : σ → Block 64 → σ} {iv : σ}

def onBytes (transform : σ → Block 64 → σ) (s : σ) (block : List UInt8) : σ :=
  transform s (Block.ofBytes block)

theorem byte_ofBytes (l : List UInt8) {j : Nat} (hj : j < 64) :
    (Block.ofBytes l : Block 64).byte j = l.getD j 0 := by
  unfold Block.ofBytes
  rw [Block.byte_patch _ _ _ hj]
  split
  · rfl
  · next h =>
    rw [Block.byte_zero, List.getD_eq_default]
    omega

/-- The transform of a full buffer is that of its bytes. -/
theorem onBytes_bytes (s : σ) (buffer : Block 64) :
    onBytes transform s (buffer.bytes 0 64) = transform s buffer := by
  unfold onBytes
  congr 1
  apply Block.ext
  intro i hi
  rw [byte_ofBytes _ hi]
  simp [Block.bytes, hi]

structure Holds (transform : σ → Block 64 → σ) (iv : σ) (m : List UInt8) (ctx : HashCtx σ) : Prop where
  absorbed : Absorbed (onBytes transform) iv m ctx.state ctx.buffer
  count : ctx.count = UInt64.ofNat m.length

/-- The buffer holds what is behind the last full block. -/
theorem Holds.bufferLen {ctx : HashCtx σ} (h : Holds transform iv m ctx) :
    ctx.count.toNat % 64 = m.length % 64 := by
  rw [h.count, UInt64.toNat_ofNat', Nat.mod_mod_of_dvd]
  decide

/-- The loop of an update absorbs full blocks. -/
theorem hashUpdateLoop_spec {m data : List UInt8} {state : σ} {buffer : Block 64}
    {bufferLen rounds : Nat} (h : Absorbed (onBytes transform) iv m state buffer)
    (hlen : bufferLen = m.length % 64) (hrounds : data.length ≤ rounds) :
    Absorbed (onBytes transform) iv (m ++ data)
      (hashUpdateLoop transform rounds state buffer bufferLen data).1
      (hashUpdateLoop transform rounds state buffer bufferLen data).2 := by
  induction rounds generalizing m data state buffer bufferLen with
  | zero =>
    obtain rfl := List.length_eq_zero_iff.mp (Nat.le_zero.mp hrounds)
    rw [List.append_nil]
    exact h
  | succ rounds ih =>
    rw [hashUpdateLoop]
    by_cases hempty : data.length > 0
    swap
    · obtain rfl := List.length_eq_zero_iff.mp (Nat.eq_zero_of_not_pos hempty)
      rw [if_neg hempty, List.append_nil]
      exact h
    rw [if_pos hempty]
    dsimp only
    generalize hcopy : (if 64 - bufferLen > data.length then data.length else 64 - bufferLen) = copyLen
    have hbounds : 0 < copyLen ∧ copyLen ≤ data.length ∧ bufferLen + copyLen ≤ 64 := by
      rw [← hcopy]
      split
      · omega
      · omega
    have htake : (data.take copyLen).length = copyLen := List.length_take_of_le hbounds.2.1
    have hdrop : (data.drop copyLen).length ≤ rounds := by
      rw [List.length_drop]
      omega
    have hsplit : m ++ data = m ++ data.take copyLen ++ data.drop copyLen := by
      rw [List.append_assoc, List.take_append_drop]
    rw [hsplit]
    split
    · next hfull =>
      have hnext := h.fill (by rw [htake]; omega) (buffer.patch bufferLen (data.take copyLen))
      rw [← hlen, onBytes_bytes] at hnext
      apply ih hnext _ hdrop
      rw [List.length_append, htake]
      omega
    · next hroom =>
      have hnext := h.copy (by rw [htake]; omega)
      rw [← hlen] at hnext
      apply ih hnext _ hdrop
      rw [List.length_append, htake]
      omega

/-- At the start nothing is absorbed. -/
theorem holds_init (transform : σ → Block 64 → σ) (iv : σ) : Holds transform iv [] (hashInit iv) :=
  ⟨absorbed_start _ _ _, rfl⟩

/-- An update absorbs its data. -/
theorem holds_update {ctx : HashCtx σ} (h : Holds transform iv m ctx) (data : List UInt8) :
    Holds transform iv (m ++ data) (hashUpdate transform ctx data) := by
  refine ⟨hashUpdateLoop_spec h.absorbed h.bufferLen (Nat.le_refl _), ?_⟩
  show ctx.count + UInt64.ofNat data.length = _
  rw [h.count, ← UInt64.ofNat_add, List.length_append]

/-- Several updates absorb their pieces, whatever their lengths. -/
theorem holds_foldl {ctx : HashCtx σ} (h : Holds transform iv m ctx) (pieces : List (List UInt8)) :
    Holds transform iv (m ++ pieces.flatten) (pieces.foldl (hashUpdate transform) ctx) := by
  induction pieces generalizing m ctx with
  | nil =>
    rw [List.flatten_nil, List.append_nil]
    exact h
  | cons piece pieces ih =>
    rw [List.flatten_cons, ← List.append_assoc]
    exact ih (holds_update h piece)

theorem hashFill_eq (n : Nat) (buffer : Block 64) (pos : Nat) :
    hashFill n buffer pos = buffer.patch pos (List.replicate n 0) := by
  induction n generalizing buffer pos with
  | zero => exact (patch_nil buffer pos).symm
  | succ n ih =>
    have hone : pos + 1 = pos + [(0 : UInt8)].length := rfl
    rw [hashFill, ih, patch_patch buffer hone, List.replicate_succ, List.singleton_append]

/-- The final call absorbs the padding and the length. -/
theorem hashFinal_eq (hlengthBytes : ∀ n, (lengthBytes n).length = 8)
    {ctx : HashCtx σ} (h : Holds transform iv m ctx) :
    hashFinal transform lengthBytes ctx =
      hashed (onBytes transform) iv (fun n => lengthBytes (UInt64.ofNat n)) m := by
  have hbits : ctx.count * 8 = UInt64.ofNat (8 * m.length) := by
    rw [h.count, Nat.mul_comm, UInt64.ofNat_mul]
    rfl
  have hmod := Nat.mod_lt m.length (show 64 > 0 by decide)
  unfold hashFinal
  simp only [h.bufferLen, hbits, hashFill_eq]
  generalize hlength : lengthBytes (UInt64.ofNat (8 * m.length)) = bytes
  have hbytes : bytes.length = 8 := by rw [← hlength, hlengthBytes]
  split
  · next hspill =>
    have hone : m.length % 64 + 1 = m.length % 64 + [(0x80 : UInt8)].length := rfl
    have hzeros : (56 : Nat) = 0 + (List.replicate (56 - 0) (0 : UInt8)).length := by simp
    rw [patch_patch ctx.buffer hone, patch_patch _ hzeros]
    generalize hd : [(0x80 : UInt8)] ++ List.replicate (64 - (m.length % 64 + 1)) 0 = d
    have hdlength : m.length % 64 + d.length = 64 := by
      rw [← hd]
      simp only [List.length_append, List.length_singleton, List.length_replicate]
      omega
    have hfirst := h.absorbed.fill hdlength (ctx.buffer.patch (m.length % 64) d)
    have hstart : (m ++ d).length % 64 = 0 := by
      rw [List.length_append]
      omega
    rw [onBytes_bytes] at hfirst
    have hsecond := hfirst.fill (show (m ++ d).length % 64 + (List.replicate (56 - 0) 0 ++ bytes).length = 64 by
      rw [hstart, List.length_append, List.length_replicate, hbytes]) ctx.buffer
    have hpadded : m ++ d ++ (List.replicate (56 - 0) 0 ++ bytes) =
        padded (fun n => lengthBytes (UInt64.ofNat n)) m := by
      have hcount : (119 - m.length % 64) % 64 = 64 - (m.length % 64 + 1) + 56 := by omega
      unfold padded
      dsimp only
      rw [hlength, hcount, List.replicate_add, ← hd]
      simp only [List.append_assoc, List.cons_append, List.nil_append, Nat.sub_zero]
    rw [onBytes_bytes, hstart, hpadded] at hsecond
    exact hsecond.hashed_eq
  · next hroom =>
    have hone : m.length % 64 + 1 = m.length % 64 + [(0x80 : UInt8)].length := rfl
    rw [patch_patch ctx.buffer hone]
    have hzeros : 56 = m.length % 64 + ([(0x80 : UInt8)] ++ List.replicate (56 - (m.length % 64 + 1)) 0).length := by
      simp only [List.length_append, List.length_singleton, List.length_replicate]
      omega
    rw [patch_patch ctx.buffer hzeros]
    have hlast := h.absorbed.fill
      (show m.length % 64 + ([(0x80 : UInt8)] ++ List.replicate (56 - (m.length % 64 + 1)) 0 ++ bytes).length = 64 by
        simp only [List.length_append, List.length_singleton, List.length_replicate, hbytes]
        omega) ctx.buffer
    have hpadded : m ++ ([(0x80 : UInt8)] ++ List.replicate (56 - (m.length % 64 + 1)) 0 ++ bytes) =
        padded (fun n => lengthBytes (UInt64.ofNat n)) m := by
      have hcount : (119 - m.length % 64) % 64 = 56 - (m.length % 64 + 1) := by omega
      unfold padded
      dsimp only
      rw [hlength, hcount]
      simp only [List.append_assoc, List.cons_append, List.nil_append]
    rw [onBytes_bytes, hpadded] at hlast
    exact hlast.hashed_eq

/-- The hash of pieces is that of the whole. -/
theorem hashFinal_foldl (hlengthBytes : ∀ n, (lengthBytes n).length = 8)
    (pieces : List (List UInt8)) :
    hashFinal transform lengthBytes (pieces.foldl (hashUpdate transform) (hashInit iv)) =
      hashed (onBytes transform) iv (fun n => lengthBytes (UInt64.ofNat n)) pieces.flatten :=
  hashFinal_eq hlengthBytes (holds_foldl (holds_init transform iv) pieces)

end

section

variable {l : List UInt8} {i : Nat}

theorem blockWordLE_ofBytes (hi : i < 16) : blockWordLE (Block.ofBytes l) i = littleWord l i := by
  apply UInt32.toNat_inj.mp
  have hword := toNat_wordOfBytes (l.getD (i * 4) 0) (l.getD (i * 4 + 1) 0) (l.getD (i * 4 + 2) 0) (l.getD (i * 4 + 3) 0)
  have h0 := (l.getD (i * 4) 0).toNat_lt
  have h1 := (l.getD (i * 4 + 1) 0).toNat_lt
  have h2 := (l.getD (i * 4 + 2) 0).toNat_lt
  have h3 := (l.getD (i * 4 + 3) 0).toNat_lt
  have hblock : blockWordLE (Block.ofBytes l) i =
      wordOfBytes (l.getD (i * 4) 0) (l.getD (i * 4 + 1) 0) (l.getD (i * 4 + 2) 0) (l.getD (i * 4 + 3) 0) := by
    unfold blockWordLE
    rw [byte_ofBytes l (by omega), byte_ofBytes l (by omega), byte_ofBytes l (by omega),
      byte_ofBytes l (by omega)]
    rfl
  rw [hblock, hword]
  unfold littleWord
  simp only [Nat.mul_comm 4 i, Nat.add_zero]
  rw [UInt32.toNat_ofNat', Nat.mod_eq_of_lt (by omega)]

theorem blockWordBE_ofBytes (hi : i < 16) : blockWordBE (Block.ofBytes l) i = bigWord l i := by
  apply UInt32.toNat_inj.mp
  have hword := toNat_wordOfBytes (l.getD (i * 4 + 3) 0) (l.getD (i * 4 + 2) 0) (l.getD (i * 4 + 1) 0) (l.getD (i * 4) 0)
  have h0 := (l.getD (i * 4) 0).toNat_lt
  have h1 := (l.getD (i * 4 + 1) 0).toNat_lt
  have h2 := (l.getD (i * 4 + 2) 0).toNat_lt
  have h3 := (l.getD (i * 4 + 3) 0).toNat_lt
  have hblock : blockWordBE (Block.ofBytes l) i =
      wordOfBytes (l.getD (i * 4 + 3) 0) (l.getD (i * 4 + 2) 0) (l.getD (i * 4 + 1) 0) (l.getD (i * 4) 0) := by
    have hor (a b c d : UInt32) : a ||| b ||| c ||| d = d ||| c ||| b ||| a := by
      rw [UInt32.or_comm (a ||| b ||| c) d, UInt32.or_comm (a ||| b) c, UInt32.or_comm a b,
        UInt32.or_assoc,
        UInt32.or_assoc]
    unfold blockWordBE wordOfBytes
    rw [byte_ofBytes l (by omega), byte_ofBytes l (by omega), byte_ofBytes l (by omega),
      byte_ofBytes l (by omega)]
    exact hor _ _ _ _
  rw [hblock, hword]
  unfold bigWord
  simp only [Nat.mul_comm 4 i, Nat.add_zero]
  rw [UInt32.toNat_ofNat', Nat.mod_eq_of_lt (by omega)]
  omega

theorem wordBytesBE_eq (w : UInt32) : wordBytesBE w = bigBytes 4 w.toNat := by
  have hbyte (k : UInt32) (hk : k.toNat < 32) : (w >>> k).toUInt8 = UInt8.ofNat (w.toNat / 2 ^ k.toNat) := by
    apply UInt8.toNat_inj.mp
    rw [UInt32.toNat_toUInt8, UInt32.toNat_shiftRight, Nat.mod_eq_of_lt hk,
      Nat.shiftRight_eq_div_pow, UInt8.toNat_ofNat']
  have hlast : w.toUInt8 = UInt8.ofNat w.toNat := rfl
  unfold wordBytesBE bigBytes
  rw [hbyte 24 (by decide), hbyte 16 (by decide), hbyte 8 (by decide), hlast]
  simp [List.range_succ]

theorem wordBytesLE_eq (w : UInt32) : wordBytesLE w = littleBytes 4 w.toNat := by
  have hmask (x : UInt32) : (x &&& 0xFF).toUInt8 = x.toUInt8 := by
    apply UInt8.toNat_inj.mp
    rw [UInt32.toNat_toUInt8, UInt32.toNat_toUInt8, UInt32.toNat_and]
    exact Nat.mod_mod_of_dvd x.toNat (dvd_refl 256) ▸ congrArg (· % 256)
      (Nat.and_two_pow_sub_one_eq_mod x.toNat 8)
  have hbig := wordBytesBE_eq w
  unfold wordBytesBE bigBytes at hbig
  unfold wordBytesLE littleBytes
  rw [hmask, hmask, hmask, hmask]
  have hreverse := congrArg List.reverse hbig
  rw [← List.map_reverse, List.reverse_reverse] at hreverse
  exact hreverse

theorem bitCount_byte (n : Nat) (hi : i < 8) :
    (UInt64.ofNat n >>> UInt64.ofNat (i * 8)).toUInt8 = UInt8.ofNat (n / 256 ^ i) := by
  apply UInt8.toNat_inj.mp
  have hshift : (UInt64.ofNat (i * 8)).toNat % 64 = i * 8 := by
    rw [UInt64.toNat_ofNat', Nat.mod_eq_of_lt (show i * 8 < 2 ^ 64 by omega),
      Nat.mod_eq_of_lt (by omega)]
  have hpow : 2 ^ 64 = 2 ^ (i * 8) * 2 ^ (64 - i * 8) := by
    rw [← Nat.pow_add]
    congr 1
    omega
  rw [UInt64.toNat_toUInt8, UInt64.toNat_shiftRight, hshift, UInt64.toNat_ofNat',
    UInt8.toNat_ofNat',
    Nat.shiftRight_eq_div_pow, hpow, Nat.mod_mul_right_div_self, Nat.mod_mod_of_dvd, Nat.mul_comm, Nat.pow_mul]
  exact Nat.pow_dvd_pow 2 (by omega)

/-- The length is written big-endian. -/
theorem bitCountBE_eq (n : Nat) : bitCountBE (UInt64.ofNat n) = bigBytes 8 n := by
  apply List.map_congr_left
  intro i hi
  exact bitCount_byte n (List.mem_range.mp (List.mem_reverse.mp hi))

theorem bitCountLE_eq (n : Nat) : bitCountLE (UInt64.ofNat n) = littleBytes 8 n := by
  apply List.map_congr_left
  intro i hi
  exact bitCount_byte n (List.mem_range.mp hi)

end

/-- Two loops that correspond step by step. -/
theorem foldl_along {α β ι : Type} {f : α → ι → α} {f' : β → ι → β} (g : α → β) {l : List ι}
    (h : ∀ s, ∀ i ∈ l, g (f s i) = f' (g s) i) (s : α) : g (l.foldl f s) = l.foldl f' (g s) := by
  induction l generalizing s with
  | nil => rfl
  | cons i l ih =>
    rw [List.foldl_cons, List.foldl_cons, ih (fun s j hj => h s j (List.mem_cons_of_mem _ hj)),
      h s i List.mem_cons_self]

/-- Two hashes whose compression functions correspond. -/
theorem hashed_along {σ τ : Type} {compress : σ → List UInt8 → σ} {compress' : τ → List UInt8 → τ}
    (g : σ → τ) (h : ∀ s l, g (compress s l) = compress' (g s) l) (iv : σ)
    (lengthBytes : Nat → List UInt8) (m : List UInt8) :
    g (hashed compress iv lengthBytes m) = hashed compress' (g iv) lengthBytes m := by
  unfold hashed MerkleDamgard.chain
  apply foldl_along g
  intro s i _
  exact h s _

/-- A hash whose compression function is the standard's one. -/
theorem hashFinal_standard {σ : Type} {words : σ → Fin n → UInt32} {transform : σ → Block 64 → σ}
    {compress : (Fin n → UInt32) → List UInt8 → Fin n → UInt32}
    {standardBytes : Nat → List UInt8}
    (hblock : ∀ s l, words (onBytes transform s l) = compress (words s) l)
    (hbytes : ∀ n, lengthBytes (UInt64.ofNat n) = standardBytes n)
    (hlength : ∀ n, (lengthBytes n).length = 8) (iv : σ) (pieces : List (List UInt8)) :
    words (hashFinal transform lengthBytes (pieces.foldl (hashUpdate transform) (hashInit iv))) =
      hashed compress (words iv) standardBytes pieces.flatten := by
  have hwords := hashed_along words hblock iv (fun n => lengthBytes (UInt64.ofNat n)) pieces.flatten
  simp only [hbytes] at hwords
  rw [hashFinal_foldl hlength]
  simp only [hbytes]
  exact hwords

theorem flatMap_ofFn {write write' : UInt32 → List UInt8} (hwrite : ∀ w, write w = write' w)
    {words : Fin n → UInt32} {l : List UInt32} (h : l = List.ofFn words) :
    l.flatMap write = (List.ofFn words).flatMap write' := by
  rw [h]
  congr 1
  exact funext hwrite

def md5StateWords (s : Md5State) : Fin 4 → UInt32 := ![s.a, s.b, s.c, s.d]

/-- A round of MD5 is the standard's. -/
theorem md5Round_eq (l : List UInt8) (s : Md5State) {i : Nat} (hi : i < 64) :
    md5StateWords (md5Round (Block.ofBytes l) s i) =
      HashStandards.md5Step (littleWord l) (md5StateWords s) i := by
  have hshift : ∀ i < 64, md5S.getD i 0 = HashStandards.md5Shift i := by decide
  have hstep (f f' : UInt32) (g : Nat) (hg : g < 16) (hf : f = f') :
      s.b + leftRotate (s.a + f + md5K.getD i 0 + blockWordLE (Block.ofBytes l) g) (md5S.getD i 0) =
        s.b + HashStandards.rotl (HashStandards.md5Shift i) (s.a + f' + littleWord l g + HashStandards.md5T.getD i 0) := by
    rw [hshift i hi, blockWordLE_ofBytes hg, hf, UInt32.add_assoc, UInt32.add_comm (md5K.getD i 0),
      ← UInt32.add_assoc]
    rfl
  have hwords (f f' : UInt32) (g : Nat) (hg : g < 16) (hf : f = f') :=
    congrArg (fun b => (![s.d, b, s.b, s.c] : Fin 4 → UInt32)) (hstep f f' g hg hf)
  unfold md5Round HashStandards.md5Step HashStandards.md5F HashStandards.md5Index
  by_cases h1 : i < 16
  · simp only [if_pos h1]
    exact hwords _ _ i h1 rfl
  by_cases h2 : i < 32
  · simp only [if_neg h1, if_pos h2]
    apply hwords _ _ ((5 * i + 1) % 16) (Nat.mod_lt _ (by decide))
    rw [UInt32.and_comm s.d s.b, UInt32.and_comm (~~~s.d) s.c]
    rfl
  by_cases h3 : i < 48
  · simp only [if_neg h1, if_neg h2, if_pos h3]
    exact hwords _ _ ((3 * i + 5) % 16) (Nat.mod_lt _ (by decide)) rfl
  · simp only [if_neg h1, if_neg h2, if_neg h3]
    exact hwords _ _ (7 * i % 16) (Nat.mod_lt _ (by decide)) rfl

/-- The transform of MD5 is the standard's compression. -/
theorem md5Transform_eq (s : Md5State) (l : List UInt8) :
    md5StateWords (onBytes md5Transform s l) = HashStandards.md5Compress (md5StateWords s) l := by
  have hrounds := foldl_along md5StateWords (fun s i hi => md5Round_eq l s (List.mem_range.mp hi)) s
  unfold HashStandards.md5Compress
  rw [← hrounds]
  funext i
  fin_cases i <;> rfl

/-- MD5 of pieces is the standard's MD5 of the whole. -/
theorem md5_standard (pieces : List (List UInt8)) :
    md5Final (pieces.foldl md5Update md5Init) = HashStandards.md5 pieces.flatten := by
  have hstate := hashFinal_standard md5Transform_eq bitCountLE_eq (fun _ => rfl) md5Init.state pieces
  apply (flatMap_ofFn wordBytesLE_eq (show _ = List.ofFn (md5StateWords _) from rfl)).trans
  exact congrArg (fun words => (List.ofFn words).flatMap fun w => littleBytes 4 w.toNat) hstate

def sha1StateWords (s : Sha1State) : Fin 5 → UInt32 := ![s.a, s.b, s.c, s.d, s.e]

theorem getD_map_range (w : Nat → UInt32) {i n : Nat} (hi : i < n) :
    ((List.range n).map w).getD i 0 = w i := by
  rw [List.getD_eq_getElem _ _ (by simpa using hi)]
  simp

/-- The schedule of SHA-1 is the standard's. -/
theorem sha1Words_eq (l : List UInt8) :
    sha1Words (Block.ofBytes l) = (List.range 80).map (HashStandards.sha1Schedule (bigWord l)) := by
  apply @HashStandards.foldl_schedule _ _ _ _ _ 64
  · apply List.map_congr_left
    intro i hi
    have hi := List.mem_range.mp hi
    rw [blockWordBE_ofBytes hi, HashStandards.sha1Schedule, if_pos hi]
  · intro i hi
    conv_rhs => rw [HashStandards.sha1Schedule, if_neg (Nat.not_lt.mpr hi)]
    rw [getD_map_range _ (by omega), getD_map_range _ (by omega), getD_map_range _ (by omega),
      getD_map_range _ (by omega)]
    rfl

theorem sha1Round_eq (l : List UInt8) (s : Sha1State) {i : Nat} (hi : i < 80) :
    sha1StateWords (sha1Round (sha1Words (Block.ofBytes l)) s i) =
      HashStandards.sha1Step (HashStandards.sha1Schedule (bigWord l)) (sha1StateWords s) i := by
  have hk : ∀ i < 80, HashStandards.sha1K i =
      if i < 20 then 0x5A827999 else if i < 40 then 0x6ED9EBA1 else if i < 60 then 0x8F1BBCDC else 0xCA62C1D6 := by
    decide
  have hword : (sha1Words (Block.ofBytes l)).getD i 0 = HashStandards.sha1Schedule (bigWord l) i := by
    rw [sha1Words_eq, getD_map_range _ hi]
  have hstep (f f' k : UInt32) (hf : f = f') (hkey : HashStandards.sha1K i = k) :
      (![leftRotate s.a 5 + f + s.e + k + (sha1Words (Block.ofBytes l)).getD i 0, s.a, leftRotate s.b 30, s.c, s.d] :
        Fin 5 → UInt32) =
      ![HashStandards.rotl 5 s.a + f' + s.e + HashStandards.sha1K i + HashStandards.sha1Schedule (bigWord l) i, s.a,
        HashStandards.rotl 30 s.b, s.c, s.d] := by
    rw [hword, hf, hkey]
    rfl
  have hkey := hk i hi
  unfold sha1Round HashStandards.sha1Step HashStandards.sha1F
  by_cases h1 : i < 20
  · simp only [if_pos h1] at hkey ⊢
    exact hstep _ _ _ (HashStandards.ch_eq_or _ _ _) hkey
  by_cases h2 : i < 40
  · simp only [if_neg h1, if_pos h2] at hkey ⊢
    exact hstep _ _ _ rfl hkey
  by_cases h3 : i < 60
  · simp only [if_neg h1, if_neg h2, if_pos h3] at hkey ⊢
    exact hstep _ _ _ (HashStandards.maj_eq_or _ _ _) hkey
  · simp only [if_neg h1, if_neg h2, if_neg h3] at hkey ⊢
    exact hstep _ _ _ rfl hkey

/-- The transform of SHA-1 is the standard's compression. -/
theorem sha1Transform_eq (s : Sha1State) (l : List UInt8) :
    sha1StateWords (onBytes sha1Transform s l) =
      HashStandards.sha1Compress (sha1StateWords s) l := by
  have hrounds := foldl_along sha1StateWords (fun s i hi => sha1Round_eq l s (List.mem_range.mp hi)) s
  unfold HashStandards.sha1Compress
  rw [← hrounds]
  funext i
  fin_cases i <;> rfl

/-- SHA-1 of pieces is the standard's SHA-1 of the whole. -/
theorem sha1_standard (pieces : List (List UInt8)) :
    sha1Final (pieces.foldl sha1Update sha1Init) = HashStandards.sha1 pieces.flatten := by
  have hstate := hashFinal_standard sha1Transform_eq bitCountBE_eq (fun _ => rfl) sha1Init.state pieces
  apply (flatMap_ofFn wordBytesBE_eq (show _ = List.ofFn (sha1StateWords _) from rfl)).trans
  exact congrArg (fun words => (List.ofFn words).flatMap fun w => bigBytes 4 w.toNat) hstate

def sha256StateWords (s : Sha256State) : Fin 8 → UInt32 := ![s.a, s.b, s.c, s.d, s.e, s.f, s.g, s.h]

/-- The schedule of SHA-256 is the standard's. -/
theorem sha256Words_eq (l : List UInt8) :
    sha256Words (Block.ofBytes l) =
      (List.range 64).map (HashStandards.sha256Schedule (bigWord l)) := by
  apply @HashStandards.foldl_schedule _ _ _ _ _ 48
  · apply List.map_congr_left
    intro i hi
    have hi := List.mem_range.mp hi
    rw [blockWordBE_ofBytes hi, HashStandards.sha256Schedule, if_pos hi]
  · intro i hi
    conv_rhs => rw [HashStandards.sha256Schedule, if_neg (Nat.not_lt.mpr hi)]
    rw [getD_map_range _ (by omega), getD_map_range _ (by omega), getD_map_range _ (by omega),
      getD_map_range _ (by omega)]
    rfl

/-- A round of SHA-256 is the standard's. -/
theorem sha256Round_eq (l : List UInt8) (s : Sha256State) {i : Nat} (hi : i < 64) :
    sha256StateWords (sha256Round (sha256Words (Block.ofBytes l)) s i) =
      HashStandards.sha256Step (HashStandards.sha256Schedule (bigWord l))
        (sha256StateWords s) i := by
  have hk : HashStandards.sha256K = sha256Constants := by decide +kernel
  have hword : (sha256Words (Block.ofBytes l)).getD i 0 = HashStandards.sha256Schedule (bigWord l) i := by
    rw [sha256Words_eq, getD_map_range _ hi]
  unfold sha256Round HashStandards.sha256Step
  rw [hword, hk]
  rfl

/-- The transform of SHA-256 is the standard's compression. -/
theorem sha256Transform_eq (s : Sha256State) (l : List UInt8) :
    sha256StateWords (onBytes sha256Transform s l) =
      HashStandards.sha256Compress (sha256StateWords s) l := by
  have hrounds := foldl_along sha256StateWords (fun s i hi => sha256Round_eq l s (List.mem_range.mp hi)) s
  unfold HashStandards.sha256Compress
  rw [← hrounds]
  funext i
  fin_cases i <;> rfl

theorem sha256Iv_eq : sha256StateWords sha256Init.state = HashStandards.sha256Iv := by
  funext i
  revert i
  decide

/-- SHA-256 of pieces is the standard's SHA-256 of the whole. -/
theorem sha256_standard (pieces : List (List UInt8)) :
    sha256Final (pieces.foldl sha256Update sha256Init) = HashStandards.sha256 pieces.flatten := by
  have hstate := hashFinal_standard sha256Transform_eq bitCountBE_eq (fun _ => rfl) sha256Init.state pieces
  rw [sha256Iv_eq] at hstate
  apply (flatMap_ofFn wordBytesBE_eq (show _ = List.ofFn (sha256StateWords _) from rfl)).trans
  exact congrArg (fun words => (List.ofFn words).flatMap fun w => bigBytes 4 w.toNat) hstate

/-- A key that is not longer than a block is padded with zeros. -/
theorem xorKey_eq (p : UInt8) {key : List UInt8} (h : key.length ≤ n) :
    xorKey (List.replicate n p) key = (key ++ List.replicate (n - key.length) 0).map (· ^^^ p) := by
  induction key generalizing n with
  | nil =>
    cases n with
    | zero => rfl
    | succ n =>
      rw [List.nil_append, List.map_replicate, UInt8.zero_xor]
      rfl
  | cons k key ih =>
    obtain ⟨n, rfl⟩ := Nat.exists_eq_succ_of_ne_zero (Nat.ne_of_gt (Nat.lt_of_lt_of_le (Nat.succ_pos _) h))
    rw [List.replicate_succ, xorKey, ih (Nat.le_of_succ_le_succ h), List.cons_append,
      List.map_cons, UInt8.xor_comm,
      List.length_cons, Nat.succ_sub_succ]

/-- HMAC with a hash of a long key. -/
theorem hmacWith_eq {σ : Type} {init : HashCtx σ} {update : HashCtx σ → List UInt8 → HashCtx σ}
    {final : HashCtx σ → List UInt8} {hash : List UInt8 → List UInt8}
    (hstream : ∀ pieces : List (List UInt8), final (pieces.foldl update init) =
      hash pieces.flatten) (hsize : ∀ m, (hash m).length ≤ 64) (key data : List UInt8) :
    hmacWith init update final (fun data => final (update init data)) key data =
      hmac hash key data := by
  have hone (m : List UInt8) : final (update init m) = hash m := by simpa using hstream [m]
  have htwo (m d : List UInt8) : final (update (update init m) d) = hash (m ++ d) := by
    simpa using hstream [m, d]
  have hkey : (if 64 < key.length then hash key else key).length ≤ 64 := by
    split
    · exact hsize key
    · omega
  unfold hmacWith hmac
  simp only [hone, htwo, gt_iff_lt, xorKey_eq _ hkey]

/-- HMAC with SHA-256 is the standard's. -/
theorem hmacSha256_eq (key data : List UInt8) :
    hmacSha256 key data = hmac HashStandards.sha256 key data := by
  apply hmacWith_eq sha256_standard
  intro m
  simp [HashStandards.sha256, bigBytes, List.ofFn_succ]

/-- A message in pieces has the digest of the standard, for MD5, SHA-1 and SHA-256, and so do the
keyed hashes. -/
theorem hashes_standard :
    (∀ pieces : List (List UInt8), md5Final (pieces.foldl md5Update md5Init) =
      HashStandards.md5 pieces.flatten) ∧
    (∀ pieces : List (List UInt8), sha1Final (pieces.foldl sha1Update sha1Init) =
      HashStandards.sha1 pieces.flatten) ∧
    (∀ pieces : List (List UInt8), sha256Final (pieces.foldl sha256Update sha256Init) =
      HashStandards.sha256 pieces.flatten) ∧
    (∀ key data, hmacMd5 key data = hmac HashStandards.md5 key data) ∧
    (∀ key data, hmacSha1 key data = hmac HashStandards.sha1 key data) ∧
    ∀ key data, hmacSha256 key data = hmac HashStandards.sha256 key data := by
  refine ⟨md5_standard, sha1_standard, sha256_standard, fun key data => ?_, fun key data => ?_,
    hmacSha256_eq⟩
  · apply hmacWith_eq md5_standard
    intro m
    simp [HashStandards.md5, littleBytes, List.ofFn_succ]
  · apply hmacWith_eq sha1_standard
    intro m
    simp [HashStandards.sha1, bigBytes, List.ofFn_succ]

end Monios.Analysis.HashStreams
