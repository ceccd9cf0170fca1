import Mathlib.Tactic.FinCases
import Monios.Library.BlockChaining
import Monios.Model.Aes

/-!
# AES is undone

Every step of a round has an inverse in the source, and the rounds are undone in the opposite order,
so that the decryption of a block undoes its encryption whatever the words of the key are. The
blocks of a message are then undone one by one, as long as each block is combined with the encrypted
one before it.
-/

set_option autoImplicit false

namespace Monios.Analysis.AesInverse

open Monios.Library Monios.Model

theorem xor_cancel_left (x y : UInt8) :
    x ^^^ (x ^^^ y) = y := by rw [← UInt8.xor_assoc, UInt8.xor_self, UInt8.zero_xor]

theorem xor_cancel_right (x y : UInt8) :
    x ^^^ y ^^^ y = x := by rw [UInt8.xor_assoc, UInt8.xor_self, UInt8.xor_zero]

/-- A statement about all bytes is one about the numbers below 256. -/
theorem forall_byte {P : UInt8 → Prop} (h : ∀ n < 256, P (UInt8.ofNat n)) (x : UInt8) : P x := by
  have hx := h x.toNat x.toNat_lt
  rwa [UInt8.ofNat_toNat] at hx

def Linear (f : UInt8 → UInt8) : Prop := ∀ x y, f (x ^^^ y) = f x ^^^ f y

/-- Doubling is linear. -/
theorem linear_aesGfMul2 : Linear aesGfMul2 := by
  intro x y
  have hbit (x : UInt8) : x &&& 0x80 = 0 ∨ x &&& 0x80 = 0x80 := by
    revert x
    apply forall_byte
    decide +kernel
  have hhigh : (x ^^^ y) &&& 0x80 = (x &&& 0x80) ^^^ (y &&& 0x80) := by
    apply UInt8.toBitVec_inj.mp
    ext k hk
    simp [Bool.and_xor_distrib_right]
  unfold aesGfMul2
  rw [hhigh, UInt8.shiftLeft_xor]
  rcases hbit x with hx | hx <;> rcases hbit y with hy | hy
  · simp [hx, hy]
  · simp [hx, hy]
    ac_rfl
  · simp [hx, hy]
    ac_rfl
  · -- both constants are added, and cancel
    simp only [hx, hy, UInt8.xor_self, ne_eq, not_true_eq_false, if_false, UInt8.xor_zero]
    rw [if_pos (by decide), UInt8.xor_assoc, UInt8.xor_comm (y <<< 1), ← UInt8.xor_assoc 0x1B,
      UInt8.xor_self,
      UInt8.zero_xor]

theorem Linear.xor {f g : UInt8 → UInt8} (hf : Linear f) (hg : Linear g) :
    Linear fun x => f x ^^^ g x := by
  intro x y
  dsimp only
  rw [hf, hg]
  ac_rfl

theorem Linear.comp {f g : UInt8 → UInt8} (hf : Linear f) (hg : Linear g) :
    Linear fun x => f (g x) := by
  intro x y
  dsimp only
  rw [hg, hf]

theorem linear_id : Linear fun x => x := fun _ _ => rfl

def columnSum (f g h k : UInt8 → UInt8) (x : UInt8) : UInt8 :=
  f (aesGfMul2 x) ^^^ g x ^^^ h x ^^^ k (aesGfMul3 x)

/-- A sum of linear functions of a mixed column. -/
theorem row_mixed {f₀ f₁ f₂ f₃ : UInt8 → UInt8} (h₀ : Linear f₀) (h₁ : Linear f₁) (h₂ : Linear f₂)
    (h₃ : Linear f₃) (a b c d : UInt8) :
    f₀ (aesGfMul2 a ^^^ aesGfMul3 b ^^^ c ^^^ d) ^^^ f₁
      (a ^^^ aesGfMul2 b ^^^ aesGfMul3 c ^^^ d) ^^^
        f₂ (a ^^^ b ^^^ aesGfMul2 c ^^^ aesGfMul3 d) ^^^ f₃
          (aesGfMul3 a ^^^ b ^^^ c ^^^ aesGfMul2 d) =
      columnSum f₀ f₁ f₂ f₃ a ^^^ columnSum f₁ f₂ f₃ f₀ b ^^^ columnSum f₂ f₃ f₀ f₁ c ^^^ columnSum f₃ f₀ f₁ f₂ d := by
  simp only [columnSum, h₀ _ _, h₁ _ _, h₂ _ _, h₃ _ _]
  ac_rfl

/-- The products of the inverse matrix with a column of the matrix: the byte itself in the row of
the column, and nothing in the others. -/
theorem columnSum_inverse (x : UInt8) :
    columnSum aesGfMulE aesGfMulB aesGfMulD aesGfMul9 x = x ∧
      columnSum aesGfMul9 aesGfMulE aesGfMulB aesGfMulD x = 0 ∧
      columnSum aesGfMulD aesGfMul9 aesGfMulE aesGfMulB x = 0 ∧
      columnSum aesGfMulB aesGfMulD aesGfMul9 aesGfMulE x = 0 := by
  revert x
  apply forall_byte
  decide +kernel

theorem getD_mem_zipIdx {l : List UInt8} {i : Nat} (h : i < l.length) :
    (l.getD i 0, i) ∈ l.zipIdx := by
  rw [List.mem_zipIdx_iff_getElem?, List.getD_eq_getElem?_getD, List.getElem?_eq_getElem h,
    Option.getD_some]

/-- The inverse table undoes the table of substitutions. -/
theorem aesInvSbox_aesSbox (x : UInt8) : aesInvSbox.getD (aesSbox.getD x.toNat 0).toNat 0 = x := by
  have hall : ∀ p ∈ aesSbox.zipIdx, aesInvSbox.getD p.1.toNat 0 = UInt8.ofNat p.2 := by
    decide +kernel
  have hlength : aesSbox.length = 256 := by decide +kernel
  rw [hall _ (getD_mem_zipIdx (hlength ▸ x.toNat_lt)), UInt8.ofNat_toNat]

variable (s : AesState)

/-- Substituting back undoes substituting. -/
theorem aesInvSubBytes_aesSubBytes : aesInvSubBytes (aesSubBytes s) = s := by
  funext i j
  exact aesInvSbox_aesSbox (s i j)

/-- Shifting back undoes shifting. -/
theorem aesInvShiftRows_aesShiftRows : aesInvShiftRows (aesShiftRows s) = s := by
  funext i j
  fin_cases i <;> fin_cases j <;> rfl

/-- Mixing back undoes mixing. -/
theorem aesInvMixColumns_aesMixColumns : aesInvMixColumns (aesMixColumns s) = s := by
  have h₂ := linear_aesGfMul2
  have h₄ := h₂.comp h₂
  have h₈ := h₂.comp h₄
  have hE : Linear aesGfMulE := (h₈.xor h₄).xor h₂
  have hB : Linear aesGfMulB := (h₈.xor h₂).xor linear_id
  have hD : Linear aesGfMulD := (h₈.xor h₄).xor linear_id
  have h9 : Linear aesGfMul9 := h₈.xor linear_id
  funext j i
  fin_cases j
  · apply (row_mixed hE hB hD h9 _ _ _ _).trans
    simp [columnSum_inverse]
  · apply (row_mixed h9 hE hB hD _ _ _ _).trans
    simp [columnSum_inverse]
  · apply (row_mixed hD h9 hE hB _ _ _ _).trans
    simp [columnSum_inverse]
  · apply (row_mixed hB hD h9 hE _ _ _ _).trans
    simp [columnSum_inverse]

/-- Adding a round key twice does nothing. -/
theorem aesAddRoundKey_twice (roundKeys : List UInt32) (first : Nat) :
    aesAddRoundKey roundKeys first (aesAddRoundKey roundKeys first s) = s := by
  funext j i
  exact xor_cancel_right _ _

/-- A state is not changed by way of the block. -/
theorem aesStateOf_aesBlockOf : aesStateOf (aesBlockOf s) = s := by
  funext j i
  fin_cases i <;> fin_cases j <;> rfl

/-- A block is not changed by way of the state. -/
theorem aesBlockOf_aesStateOf (b : Block 16) : aesBlockOf (aesStateOf b) = b := by
  funext k
  fin_cases k <;> rfl

/-- The middle rounds backwards: between two of them the state has been substituted and shifted,
which is where a round of `aes_decrypt_ecb` starts. -/
theorem foldl_aesDecryptRound (ctx : AesCtx) (rounds : List Nat) :
    rounds.reverse.foldl (aesDecryptRound ctx)
      (aesShiftRows (aesSubBytes (rounds.foldl (aesEncryptRound ctx) s))) =
      aesShiftRows (aesSubBytes s) := by
  induction rounds generalizing s with
  | nil => rfl
  | cons round rounds ih =>
    rw [List.foldl_cons, List.reverse_cons, List.foldl_append, ih]
    change aesDecryptRound ctx (aesShiftRows (aesSubBytes (aesEncryptRound ctx s round))) round = _
    rw [aesDecryptRound, aesInvShiftRows_aesShiftRows, aesInvSubBytes_aesSubBytes, aesEncryptRound,
      aesAddRoundKey_twice,
      aesInvMixColumns_aesMixColumns]

/-- Decrypting a block undoes encrypting it, for every key. -/
theorem aesDecryptEcb_aesEncryptEcb (ctx : AesCtx) (input : Block 16) :
    aesDecryptEcb ctx (aesEncryptEcb ctx input) = input := by
  unfold aesDecryptEcb aesEncryptEcb
  dsimp only
  rw [aesStateOf_aesBlockOf, aesAddRoundKey_twice, foldl_aesDecryptRound,
    aesInvShiftRows_aesShiftRows,
    aesInvSubBytes_aesSubBytes, aesAddRoundKey_twice, aesBlockOf_aesStateOf]

def aesBlocksAt (m : AesMemory) : Nat → Nat → List (Block 16)
  | _, 0 => []
  | a, n + 1 => aesBlockAt m a :: aesBlocksAt m (a + 16) n

def OneOrApart (n a b : Nat) : Prop := a = b ∨ a + 16 * n ≤ b ∨ b + 16 * n ≤ a

/-- The rest of two buffers that are one or apart is so too. -/
theorem OneOrApart.next {n a b : Nat} (h : OneOrApart (n + 1) a b) :
    OneOrApart n (a + 16) (b + 16) := by
  unfold OneOrApart at h ⊢
  omega

/-- A block that is put is read back. -/
theorem aesBlockAt_put_self (m : AesMemory) (a : Nat) (b : Block 16) :
    aesBlockAt (aesPutBlock m a b) a = b := by
  funext j
  unfold aesBlockAt aesPutBlock
  rw [if_pos ⟨by omega, by omega⟩, Nat.add_sub_cancel_left]
  exact dif_pos j.isLt

theorem aesBlockAt_congr {m m' : AesMemory} {a : Nat} (h : ∀ x, a ≤ x → x < a + 16 → m' x = m x) :
    aesBlockAt m' a = aesBlockAt m a := by
  funext j
  exact h _ (by omega) (by omega)

theorem aesBlocksAt_congr {m m' : AesMemory} {a n : Nat}
    (h : ∀ x, a ≤ x → x < a + 16 * n → m' x = m x) :
    aesBlocksAt m' a n = aesBlocksAt m a n := by
  induction n generalizing a with
  | zero => rfl
  | succ n ih =>
    rw [aesBlocksAt, aesBlocksAt, aesBlockAt_congr fun x hx hx' => h x hx (by omega),
      ih fun x hx hx' => h x (by omega) (by omega)]

/-- Putting a block changes its 16 bytes only. -/
theorem aesPutBlock_frame (m : AesMemory) {a x : Nat} (b : Block 16) (h : x < a ∨ a + 16 ≤ x) :
    aesPutBlock m a b x = m x :=
  if_neg (by omega)

theorem aesBlocksAt_eq_iff (m m' : AesMemory) (a a' n : Nat) :
    aesBlocksAt m a n = aesBlocksAt m' a' n ↔ ∀ k < 16 * n, m (a + k) = m' (a' + k) := by
  induction n generalizing a a' with
  | zero => simp [aesBlocksAt]
  | succ n ih =>
    rw [aesBlocksAt, aesBlocksAt, List.cons.injEq, ih]
    constructor
    · rintro ⟨hhead, htail⟩ k hk
      rcases Nat.lt_or_ge k 16 with hk' | hk'
      · exact congrFun hhead ⟨k, hk'⟩
      · have hrest := htail (k - 16) (by omega)
        rwa [Nat.add_assoc, Nat.add_assoc, Nat.add_sub_cancel' hk'] at hrest
    · intro h
      constructor
      · funext j
        exact h j.val (by omega)
      · intro k hk
        rw [Nat.add_assoc, Nat.add_assoc]
        exact h (16 + k) (by omega)

/-- Putting the first output block does not change the input behind it. -/
theorem aesBlocksAt_put_next {n input output : Nat} (h : OneOrApart (n + 1) input output)
    (m : AesMemory) (b : Block 16) :
    aesBlocksAt (aesPutBlock m output b) (input + 16) n = aesBlocksAt m (input + 16) n := by
  apply aesBlocksAt_congr
  intro x hx hx'
  apply aesPutBlock_frame
  unfold OneOrApart at h
  omega

section

variable (ctx : AesCtx)

/-- Encrypting changes the output only. -/
theorem aesEncryptBlocks_frame (n input output : Nat) (iv : Block 16) (m : AesMemory) {x : Nat}
    (hx : x < output ∨ output + 16 * n ≤ x) : aesEncryptBlocks ctx n input output iv m x = m x := by
  induction n generalizing input output iv m with
  | zero => rfl
  | succ n ih =>
    rw [aesEncryptBlocks, ih _ _ _ _ (by omega)]
    exact aesPutBlock_frame m _ (by omega)

/-- Decrypting changes the output only. -/
theorem aesDecryptBlocks_frame (n input output : Nat) (iv : Block 16) (m : AesMemory) {x : Nat}
    (hx : x < output ∨ output + 16 * n ≤ x) : aesDecryptBlocks ctx n input output iv m x = m x := by
  induction n generalizing input output iv m with
  | zero => rfl
  | succ n ih =>
    rw [aesDecryptBlocks, ih _ _ _ _ (by omega)]
    exact aesPutBlock_frame m _ (by omega)

/-- The output is the encryption of the input that was there. -/
theorem aesBlocksAt_aesEncryptBlocks {n input output : Nat} (h : OneOrApart n input output)
    (iv : Block 16) (m : AesMemory) :
    aesBlocksAt (aesEncryptBlocks ctx n input output iv m) output n =
      chain (aesEncryptEcb ctx) aesXorBlock iv (aesBlocksAt m input n) := by
  induction n generalizing input output iv m with
  | zero => rfl
  | succ n ih =>
    rw [aesEncryptBlocks, aesBlocksAt, ih h.next, aesBlocksAt_put_next h, aesBlocksAt, chain]
    rw [aesBlockAt_congr fun x hx hx' => aesEncryptBlocks_frame ctx n _ _ _ _ (.inl hx'),
      aesBlockAt_put_self]

/-- Apart, the output is the decryption of the input. -/
theorem aesBlocksAt_aesDecryptBlocks {n input output : Nat} (h : OneOrApart n input output)
    (hne : input ≠ output) (iv : Block 16) (m : AesMemory) :
    aesBlocksAt (aesDecryptBlocks ctx n input output iv m) output n =
      unchain (aesDecryptEcb ctx) aesXorBlock iv (aesBlocksAt m input n) := by
  induction n generalizing input output iv m with
  | zero => rfl
  | succ n ih =>
    rw [aesDecryptBlocks, aesBlocksAt, ih h.next (by omega), aesBlocksAt_put_next h, aesBlocksAt,
      unchain]
    rw [aesBlockAt_congr fun x hx hx' => aesDecryptBlocks_frame ctx n _ _ _ _ (.inl hx'),
      aesBlockAt_put_self]
    rw [aesBlockAt_congr fun x hx hx' => aesPutBlock_frame m _ _]
    unfold OneOrApart at h
    omega

/-- In place, what a block is combined with is already plain text. -/
theorem aesBlocksAt_aesDecryptBlocks_self (n input : Nat) (iv : Block 16) (m : AesMemory) :
    aesBlocksAt (aesDecryptBlocks ctx n input input iv m) input n =
      unchainOver (aesDecryptEcb ctx) aesXorBlock iv (aesBlocksAt m input n) := by
  induction n generalizing input iv m with
  | zero => rfl
  | succ n ih =>
    rw [aesDecryptBlocks, aesBlocksAt, ih, aesBlocksAt_put_next (.inl rfl), aesBlocksAt,
      unchainOver]
    rw [aesBlockAt_congr fun x hx hx' => aesDecryptBlocks_frame ctx n _ _ _ _ (.inl hx'),
      aesBlockAt_put_self]

theorem aesXorBlock_twice (a b : Block 16) : aesXorBlock (aesXorBlock a b) b = a := by
  funext j
  exact xor_cancel_right _ _

/-- Combining with a block can be undone. -/
theorem aesXorBlock_cancel (a b c : Block 16) (h : aesXorBlock a b = aesXorBlock a c) : b = c := by
  funext j
  have hj : a j ^^^ b j = a j ^^^ c j := congrFun h j
  rw [← xor_cancel_left (a j) (b j), hj, xor_cancel_left]

/-- What comes back from the two loops: the input, unless the second one works in one buffer and one
of the blocks but the last is not encrypted to itself. -/
theorem aesDecryptBlocks_aesEncryptBlocks_iff {n input mid out : Nat} (h : OneOrApart n input mid)
    (h' : OneOrApart n mid out) (iv : Block 16) (m : AesMemory) :
    (∀ k < 16 * n, aesDecryptBlocks ctx n mid out iv (aesEncryptBlocks ctx n input mid iv m) (out +
      k) = m (input + k)) ↔
      (mid = out → ∀ pair ∈ linked iv (aesBlocksAt m input n).dropLast,
        aesEncryptEcb ctx (aesXorBlock pair.1 pair.2) = pair.1) := by
  rw [← aesBlocksAt_eq_iff]
  rcases eq_or_ne mid out with rfl | hne
  · rw [aesBlocksAt_aesDecryptBlocks_self, aesBlocksAt_aesEncryptBlocks ctx h]
    rw [unchainOver_chain_eq_iff (aesDecryptEcb_aesEncryptEcb ctx) aesXorBlock_twice aesXorBlock_cancel]
    simp
  · rw [aesBlocksAt_aesDecryptBlocks ctx h' hne, aesBlocksAt_aesEncryptBlocks ctx h,
      unchain_chain (aesDecryptEcb_aesEncryptEcb ctx) aesXorBlock_twice]
    simp [hne]

end

theorem store_zero_add (bytes : List UInt8) {k : Nat} (hk : k < bytes.length) :
    store (fun _ => 0) 0 bytes (0 + k) = bytes.getD k 0 := store_add hk

/-- Bytes that are loaded, one by one. -/
theorem load_eq_iff (m : AesMemory) (a : Nat) (bytes : List UInt8) :
    load m a bytes.length = bytes ↔ ∀ k < bytes.length, m (a + k) = bytes.getD k 0 := by
  constructor
  · intro h k hk
    have hload := getElem?_load m a hk
    rw [h] at hload
    rw [List.getD_eq_getElem?_getD, hload, Option.getD_some]
  · intro h
    apply List.ext_getElem?
    intro k
    rcases Nat.lt_or_ge k bytes.length with hk | hk
    · rw [getElem?_load m a hk, h k hk, List.getD_eq_getElem?_getD, List.getElem?_eq_getElem hk,
        Option.getD_some]
    · rw [List.getElem?_eq_none hk, List.getElem?_eq_none (by rwa [length_load])]

theorem length_aesCbcBuffers (crypt : AesCtx → Nat → Nat → Nat → AesMemory → Int × AesMemory)
    (ctx : AesCtx) (input : List UInt8) :
    (aesCbcBuffers crypt ctx input).2.length = input.length := length_load _ _ _

/-- On buffers of their own, decryption undoes encryption. -/
theorem aesCbcBuffers_inverse (ctx : AesCtx) {input : List UInt8} (h : input.length % 16 = 0) :
    (aesCbcBuffers aesEncryptCbc ctx input).1 = 0 ∧
      aesCbcBuffers aesDecryptCbc ctx (aesCbcBuffers aesEncryptCbc ctx input).2 = (0, input) := by
  have hlength : 16 * (input.length / 16) = input.length := by omega
  have hapart : OneOrApart (input.length / 16) 0 input.length := Or.inr (Or.inl (by omega))
  have henc (m : AesMemory) : aesEncryptCbc ctx 0 input.length input.length m =
      (0, aesEncryptBlocks ctx (input.length / 16) 0 input.length ctx.iv m) := if_neg (by omega)
  have hdec (m : AesMemory) : aesDecryptCbc ctx 0 input.length input.length m =
      (0, aesDecryptBlocks ctx (input.length / 16) 0 input.length ctx.iv m) := if_neg (by omega)
  refine ⟨congrArg Prod.fst (henc _), ?_⟩
  -- the blocks of the second call are those that the first one has written
  have hcopied : aesBlocksAt (store (fun _ => 0) 0 (aesCbcBuffers aesEncryptCbc ctx input).2) 0 (input.length / 16) =
      aesBlocksAt (aesEncryptCbc ctx 0 input.length input.length (store (fun _ => 0) 0 input)).2 input.length
        (input.length / 16) := by
    rw [aesBlocksAt_eq_iff, hlength]
    intro k hk
    rw [store_zero_add _ (by rwa [length_aesCbcBuffers]), List.getD_eq_getElem?_getD]
    unfold aesCbcBuffers
    rw [getElem?_load _ _ hk, Option.getD_some]
  have hback : aesBlocksAt (aesDecryptBlocks ctx (input.length / 16) 0 input.length ctx.iv
        (store (fun _ => 0) 0 (aesCbcBuffers aesEncryptCbc ctx input).2)) input.length (input.length / 16) =
      aesBlocksAt (store (fun _ => 0) 0 input) 0 (input.length / 16) := by
    by_cases hzero : input.length = 0
    · rw [hzero]
      rfl
    rw [aesBlocksAt_aesDecryptBlocks ctx hapart (Ne.symm hzero), hcopied, henc,
      aesBlocksAt_aesEncryptBlocks ctx hapart]
    exact unchain_chain (aesDecryptEcb_aesEncryptEcb ctx) aesXorBlock_twice _ _
  rw [aesBlocksAt_eq_iff, hlength] at hback
  unfold aesCbcBuffers at hback ⊢
  dsimp only at hback ⊢
  rw [length_load, hdec, Prod.mk.injEq]
  refine ⟨rfl, (load_eq_iff _ _ _).mpr fun k hk => ?_⟩
  exact (hback k hk).trans (store_zero_add _ hk)

theorem take_aesBlocksAt (m : AesMemory) (a n k : Nat) :
    (aesBlocksAt m a (n + k)).take n = aesBlocksAt m a n := by
  induction n generalizing a with
  | zero => rfl
  | succ n ih =>
    rw [Nat.add_right_comm, aesBlocksAt, aesBlocksAt, List.take_succ_cons, ih]

/-- What is decrypted in a buffer of its own. -/
theorem aesBlocksAt_aesCbcBuffers (ctx : AesCtx) {input : List UInt8} (h : input.length % 16 = 0) :
    aesBlocksAt (aesDecryptCbc ctx 0 input.length input.length (store (fun _ => 0) 0 input)).2 input.length
        (input.length / 16) =
      unchain (aesDecryptEcb ctx) aesXorBlock ctx.iv
        (aesBlocksAt (store (fun _ => 0) 0 input) 0 (input.length / 16)) := by
  have hdec (m : AesMemory) : aesDecryptCbc ctx 0 input.length input.length m =
      (0, aesDecryptBlocks ctx (input.length / 16) 0 input.length ctx.iv m) := if_neg (by omega)
  rw [hdec]
  by_cases hzero : input.length = 0
  · rw [hzero]
    rfl
  · exact aesBlocksAt_aesDecryptBlocks ctx (Or.inr (Or.inl (by omega))) (Ne.symm hzero) _ _

/-- The first blocks are decrypted without those behind them. -/
theorem aesCbcBuffers_append (ctx : AesCtx) {first rest : List UInt8} (h : first.length % 16 = 0)
    (h' : (first ++ rest).length % 16 = 0) :
    (aesCbcBuffers aesDecryptCbc ctx first).2 <+:
      (aesCbcBuffers aesDecryptCbc ctx (first ++ rest)).2 := by
  have hlength : (first ++ rest).length = first.length + rest.length := List.length_append
  -- the blocks of the first part are the same in both memories
  have hstored : aesBlocksAt (store (fun _ => 0) 0 (first ++ rest)) 0 (first.length / 16) =
      aesBlocksAt (store (fun _ => 0) 0 first) 0 (first.length / 16) := by
    rw [aesBlocksAt_eq_iff]
    intro k hk
    rw [store_zero_add _ (by omega), store_zero_add _ (by omega),
      List.getD_append _ _ _ _ (by omega)]
  have hfirst := aesBlocksAt_aesCbcBuffers ctx h
  have hall := aesBlocksAt_aesCbcBuffers ctx h'
  have hcount : (first ++ rest).length / 16 = first.length / 16 +
      ((first ++ rest).length / 16 - first.length / 16) := by
    omega
  have htake := congrArg (List.take (first.length / 16)) hall
  rw [unchain_take, hcount, take_aesBlocksAt, take_aesBlocksAt, hstored, ← hfirst,
    aesBlocksAt_eq_iff] at htake
  apply List.prefix_iff_getElem?.mpr
  intro k hk
  rw [length_aesCbcBuffers] at hk
  unfold aesCbcBuffers
  dsimp only
  rw [getElem?_load _ _ (by omega), htake k (by omega)]
  have hload := getElem?_load (aesDecryptCbc ctx 0 first.length first.length (store (fun _ => 0) 0 first)).2 first.length hk
  exact (List.getElem?_eq_some_iff.mp hload).2.symm ▸ rfl

/-- Keys of 16, 24 and 32 bytes are accepted. -/
theorem aesInit_isSome {key : List UInt8}
    (h : key.length = 16 ∨ key.length = 24 ∨ key.length = 32) :
    (aesInit key).isSome := by
  unfold aesInit
  rcases h with h | h | h <;> simp [h]

/-- Every block, and every message in memory, comes back from the two calls, whatever the key, and
also where the message is encrypted in its own buffer.  Where it is decrypted in its own buffer, it
comes back exactly if each of its blocks but the last is the encryption of itself combined with the
block before. -/
theorem aesDecryptCbc_aesEncryptCbc (key : List UInt8)
    (hkey : key.length = 16 ∨ key.length = 24 ∨ key.length = 32) (length : Nat)
    (hlength : length % 16 = 0) (input mid out : Nat) (h : OneOrApart (length / 16) input mid)
    (h' : OneOrApart (length / 16) mid out) (iv : Block 16) (m : AesMemory) :
    ∃ ctx, aesInit key = some ctx ∧ (∀ block, aesDecryptEcb ctx (aesEncryptEcb ctx block) = block) ∧
      ∃ m₁ m₂, aesEncryptCbc (aesSetIv ctx iv) input length mid m = (0, m₁) ∧
        aesDecryptCbc (aesSetIv ctx iv) mid length out m₁ = (0, m₂) ∧
        ((∀ k < length, m₂ (out + k) = m (input + k)) ↔
          (mid = out → ∀ pair ∈ linked iv (aesBlocksAt m input (length / 16)).dropLast,
            aesEncryptEcb ctx (aesXorBlock pair.1 pair.2) = pair.1)) := by
  obtain ⟨ctx, hctx⟩ := Option.isSome_iff_exists.mp (aesInit_isSome hkey)
  refine ⟨ctx, hctx, aesDecryptEcb_aesEncryptEcb ctx, _, _, if_neg (by omega), if_neg (by omega),
    ?_⟩
  have hiff := aesDecryptBlocks_aesEncryptBlocks_iff (aesSetIv ctx iv) h h' iv m
  rwa [Nat.mul_div_cancel' (Nat.dvd_of_mod_eq_zero hlength)] at hiff

/-- A key of zeros and two buffers that are apart. -/
theorem aesDecryptCbc_aesEncryptCbc_apart :
    ∃ ctx, aesInit (List.replicate 16 0) = some ctx ∧ ∃ m₁ m₂,
      aesEncryptCbc (aesSetIv ctx Block.zero) 0 32 32 (fun a => UInt8.ofNat a) = (0, m₁) ∧
        aesDecryptCbc (aesSetIv ctx Block.zero) 32 32 64 m₁ = (0, m₂) ∧
        ∀ k < 32, m₂ (64 + k) = UInt8.ofNat k := by
  obtain ⟨ctx, hctx, -, m₁, m₂, h₁, h₂, hiff⟩ :=
    aesDecryptCbc_aesEncryptCbc (List.replicate 16 0) (.inl rfl) 32 rfl
    0 32 64 (.inr (.inl (by decide))) (.inr (.inl (by decide))) Block.zero (fun a => UInt8.ofNat a)
  refine ⟨ctx, hctx, m₁, m₂, h₁, h₂, fun k hk => ?_⟩
  rw [hiff.mpr (fun h => absurd h (by decide)) k hk, Nat.zero_add]

/-- Two blocks of zeros, encrypted and decrypted where they are: the second one comes back as the
encryption of the first. -/
theorem not_aesDecryptCbc_inPlace :
    ¬ ∀ key : List UInt8, (key.length = 16 ∨ key.length = 24 ∨ key.length = 32) →
      ∀ length, length % 16 = 0 →
      ∀ (input : Nat) (iv : Block 16) (m : AesMemory), ∃ ctx, aesInit key = some ctx ∧
        ∀ k < length, (aesDecryptCbc (aesSetIv ctx iv) input length input
          (aesEncryptCbc (aesSetIv ctx iv) input length input m).2).2 (input + k) = m (input +
          k) := by
  intro h
  obtain ⟨ctx, hctx, hback⟩ := h (List.replicate 16 0) (.inl rfl) 32 rfl 0 Block.zero (fun _ => 0)
  have hone : OneOrApart 2 0 0 := .inl rfl
  have hiff := aesDecryptBlocks_aesEncryptBlocks_iff (aesSetIv ctx Block.zero) hone hone Block.zero (fun _ => 0)
  have hfixed : aesEncryptEcb ctx (aesXorBlock Block.zero Block.zero) = Block.zero :=
    hiff.mp hback rfl (Block.zero, Block.zero) List.mem_cons_self
  have hvalue : (aesInit (List.replicate 16 0)).map (fun ctx =>
      aesEncryptEcb ctx (aesXorBlock Block.zero Block.zero) 0) = some 0x66 := by decide +kernel
  rw [hctx, Option.map_some, hfixed] at hvalue
  exact absurd hvalue (by decide)

end Monios.Analysis.AesInverse
