import Mathlib.Data.List.TakeDrop
import Monios.Model.HttpChunked

/-!
# Decoding of chunked bodies

`http_decode_chunked_body` on the chunked encodings of lists of chunks, and on all byte strings.
-/

set_option autoImplicit false

namespace Monios.Analysis.ChunkedBodies

open Monios.Library Monios.Model.HttpChunked

def hexFrom (n : Nat) (digits : List UInt8) : Nat :=
  digits.foldl (fun n c => n * 16 + (hexDigit c).getD 0) n

structure SizeLine where
  digits : List UInt8
  extension : List UInt8

def SizeLine.bytes (l : SizeLine) : List UInt8 := l.digits ++ (l.extension ++ [cr, lf])

structure SizeLine.States (l : SizeLine) (n : Nat) : Prop where
  nonempty : l.digits ≠ []
  hex : ∀ c ∈ l.digits, (hexDigit c).isSome
  value : hexFrom 0 l.digits = n
  ends : ∀ c, l.extension.head? = some c → hexDigit c = none
  line : ∀ c ∈ l.extension, c ≠ cr ∧ c ≠ lf

structure Chunk where
  line : SizeLine
  data : List UInt8

def Chunk.bytes (c : Chunk) : List UInt8 := c.line.bytes ++ (c.data ++ [cr, lf])

def Chunk.Valid (c : Chunk) : Prop := c.data ≠ [] ∧ c.line.States c.data.length

def encode (chunks : List Chunk) (last : SizeLine) (trailer : List UInt8) : List UInt8 :=
  chunks.flatMap Chunk.bytes ++ (last.bytes ++ trailer)

def Inside (e : Nat × Nat) : Prop := e.1 ≤ e.2

theorem hexFrom_cons (n : Nat) (c : UInt8) (digits : List UInt8) :
    hexFrom n (c :: digits) = hexFrom (n * 16 + (hexDigit c).getD 0) digits := rfl

theorem hexDigit_lt {c : UInt8} {digit : Nat} (h : hexDigit c = some digit) : digit < 16 := by
  have hall : ∀ n < 256, (hexDigit (UInt8.ofNat n)).getD 0 < 16 := by decide +kernel
  have hlt := hall c.toNat c.toNat_lt
  rw [UInt8.ofNat_toNat, h] at hlt
  exact hlt

def Reads (size : Nat) (rest : List UInt8) (n : Nat) (rest' : List UInt8) : Prop :=
  n < 2 ^ 32 ∧ ∃ digits, rest = digits ++ rest' ∧ (∀ c ∈ digits, (hexDigit c).isSome) ∧ hexFrom size digits = n

theorem Reads.length_le {size n : Nat} {rest rest' : List UInt8} (h : Reads size rest n rest') :
    rest'.length ≤ rest.length := by
  obtain ⟨-, digits, rfl, -⟩ := h
  rw [List.length_append]
  exact Nat.le_add_left ..

theorem chunkSize_returns (rest : List UInt8) (size : Nat) (haveDigit : Bool)
    (hsize : size < 2 ^ 32) :
    Logged.Returns Inside (chunkSize rest size haveDigit) fun r => ∀ n have' rest', r =
      some (n, have', rest') →
      Reads size rest n rest' ∧
      (haveDigit = false → have' = true → rest'.length < rest.length) := by
  induction rest generalizing size haveDigit with
  | nil =>
    refine .pure ?_
    rintro _ _ _ ⟨⟩
    exact ⟨⟨hsize, [], rfl, nofun, rfl⟩, fun h h' => absurd h' (by rw [h]; decide)⟩
  | cons c rest ih =>
    unfold chunkSize
    refine .emit_bind (Nat.le_add_left ..) ?_
    cases hdigit : hexDigit c with
    | none =>
      refine .pure ?_
      rintro _ _ _ ⟨⟩
      exact ⟨⟨hsize, [], rfl, nofun, rfl⟩, fun h h' => absurd h' (by rw [h]; decide)⟩
    | some digit =>
      refine .ite (fun _ => .pure (by rintro _ _ _ ⟨⟩)) fun hfits => ?_
      have hdigit16 := hexDigit_lt hdigit
      have hnext : size * 16 + digit < 2 ^ 32 := by omega
      rw [Nat.mod_eq_of_lt hnext]
      refine (ih _ true hnext).mono fun r hr n have' rest' heq => ?_
      have hread := (hr n have' rest' heq).1
      refine ⟨?_, fun _ _ => Nat.lt_succ_of_le hread.length_le⟩
      obtain ⟨hn, digits, rfl, hhex, rfl⟩ := hread
      exact ⟨hn, c :: digits, rfl, List.forall_mem_cons.mpr ⟨by rw [hdigit]; rfl, hhex⟩, by rw [hexFrom_cons, hdigit]; rfl⟩

theorem skipExtension_returns (rest : List UInt8) :
    Logged.Returns Inside (skipExtension rest) fun rest' => rest'.length ≤ rest.length := by
  induction rest with
  | nil => exact .pure (Nat.le_refl _)
  | cons c rest ih =>
    unfold skipExtension
    refine .emit_bind (Nat.le_add_left ..) (.ite (fun _ => .pure (Nat.le_refl _)) fun _ => ih.mono ?_)
    intro rest' h
    exact Nat.le_succ_of_le h

theorem atCrlf_returns (rest : List UInt8) : Logged.Returns Inside (atCrlf rest) fun _ => True := by
  refine .ite (fun _ => .pure trivial) fun h => .emit_bind (show 1 ≤ rest.length by omega) ?_
  exact .ite (fun _ => .pure trivial) fun _ => .emit_bind (show 2 ≤ rest.length by omega)
    (.pure trivial)

theorem decodeFrom_returns {outputSize rounds : Nat} {rest output : List UInt8}
    (hrounds : rest.length < rounds) (houtput : output.length ≤ outputSize) :
    Logged.Returns Inside (decodeFrom outputSize rounds rest output) fun r => r.length ≤
      outputSize := by
  induction rounds generalizing rest output with
  | zero => omega
  | succ rounds ih =>
    unfold decodeFrom
    refine .ite (fun _ => .pure houtput) fun _ => .bind (chunkSize_returns rest 0 false (by decide)) fun r hr => ?_
    cases r with
    | none => exact .pure houtput
    | some r =>
      obtain ⟨size, haveDigit, rest₁⟩ := r
      refine .ite (fun _ => .pure houtput) fun hdigit => ?_
      have hlt := (hr _ _ _ rfl).2 rfl (by simpa using hdigit)
      refine .bind (skipExtension_returns rest₁) fun rest₂ h₂ => .bind
        (atCrlf_returns rest₂) fun _ _ => ?_
      refine .ite (fun _ => .pure houtput) fun _ => .ite (fun _ => .pure houtput) fun hroom => ?_
      simp only [not_or] at hroom
      obtain ⟨hsize, hrest, hcap⟩ := hroom
      have hcopied : (output ++ (rest₂.drop 2).take (min size (outputSize - output.length))).length ≤ outputSize := by
        rw [List.length_append, List.length_take]
        omega
      refine .emit_bind (Nat.le_trans (Nat.min_le_left _ _) (Nat.not_lt.mp hrest))
        (.bind (atCrlf_returns _) fun _ _ => ?_)
      refine .ite (fun _ => .pure hcopied) fun _ => ih ?_ hcopied
      simp only [List.length_drop]
      omega

theorem le_hexFrom (n : Nat) (digits : List UInt8) : n ≤ hexFrom n digits := by
  induction digits generalizing n with
  | nil => exact Nat.le_refl _
  | cons c digits ih => exact Nat.le_trans (by omega) (ih (n * 16 + (hexDigit c).getD 0))

theorem chunkSize_digits {digits tail : List UInt8} (size : Nat) (haveDigit : Bool)
    (hhex : ∀ c ∈ digits, (hexDigit c).isSome) (hvalue : hexFrom size digits < 2 ^ 32)
    (htail : ∀ c, tail.head? = some c → hexDigit c = none) :
    (chunkSize (digits ++ tail) size haveDigit).result =
      some (some (hexFrom size digits, haveDigit || !digits.isEmpty, tail)) := by
  induction digits generalizing size haveDigit with
  | nil =>
    cases tail with
    | nil => simp [chunkSize, hexFrom, Logged.result_pure]
    | cons c tail =>
      unfold chunkSize
      rw [List.nil_append, Logged.result_emit_bind, htail c rfl]
      simp [hexFrom, Logged.result_pure]
  | cons c digits ih =>
    obtain ⟨digit, hdigit⟩ := Option.isSome_iff_exists.mp (hhex c List.mem_cons_self)
    have hstep : hexFrom size (c :: digits) = hexFrom (size * 16 + digit) digits := by rw [hexFrom_cons, hdigit]; rfl
    have hle := le_hexFrom (size * 16 + digit) digits
    rw [hstep] at hvalue ⊢
    rw [List.cons_append]
    unfold chunkSize
    rw [Logged.result_emit_bind, hdigit]
    dsimp only
    rw [if_neg (by omega), Nat.mod_eq_of_lt (by omega), ih _ true (fun d hd => hhex d (List.mem_cons_of_mem _ hd)) hvalue]
    simp

theorem skipExtension_line {extension tail : List UInt8} (h : ∀ c ∈ extension, c ≠ cr ∧ c ≠ lf) :
    (skipExtension (extension ++ cr :: tail)).result = some (cr :: tail) := by
  induction extension with
  | nil => rfl
  | cons c extension ih =>
    obtain ⟨h1, h2⟩ := h c List.mem_cons_self
    rw [List.cons_append]
    unfold skipExtension
    rw [Logged.result_emit_bind, if_neg (by simp [h1, h2])]
    exact ih fun d hd => h d (List.mem_cons_of_mem _ hd)

theorem atCrlf_crlf (tail : List UInt8) : (atCrlf (cr :: lf :: tail)).result = some true := by
  unfold atCrlf
  rw [if_neg (by simp)]
  rfl

theorem decodeFrom_line {outputSize rounds n : Nat} {l : SizeLine} {tail output : List UInt8}
    (hl : l.States n) (hn : n < 2 ^ 32) :
    (decodeFrom outputSize (rounds + 1) (l.bytes ++ tail) output).result =
      if n = 0 ∨ tail.length < n ∨ outputSize ≤ output.length then some output
      else (do
        let copySize := min n (outputSize - output.length)
        Logged.emit (copySize, tail.length)
        if !(← atCrlf (tail.drop n)) then pure (output ++ tail.take copySize)
        else decodeFrom outputSize rounds ((tail.drop n).drop 2) (output ++ tail.take copySize) : Logged _ _).result := by
  obtain ⟨hnonempty, hhex, rfl, hends, hline⟩ := hl
  have hbytes : l.bytes ++ tail = l.digits ++ (l.extension ++ cr :: lf :: tail) := by
    simp [SizeLine.bytes]
  have htail : ∀ c, (l.extension ++ cr :: lf :: tail).head? = some c → hexDigit c = none := by
    intro c hc
    cases hx : l.extension with
    | nil =>
      rw [hx] at hc
      obtain rfl := Option.some.inj hc
      rfl
    | cons d extension =>
      rw [hx] at hc
      exact hends c (by rw [hx]; exact hc)
  have hsize := chunkSize_digits 0 false hhex hn htail
  have hne : l.digits ++ (l.extension ++ cr :: lf :: tail) ≠ [] := by simp
  rw [hbytes]
  conv_lhs => unfold decodeFrom
  rw [if_neg hne, Logged.result_bind hsize]
  dsimp only
  have hdigit : (false || !l.digits.isEmpty) = true := by simp [hnonempty]
  rw [hdigit, if_neg (by decide), Logged.result_bind (skipExtension_line hline),
    Logged.result_bind (atCrlf_crlf _),
    if_neg (by decide)]
  split
  · rw [if_pos (by assumption)]
    rfl
  · rw [if_neg (by assumption)]
    rfl

theorem decodeFrom_encode {outputSize rounds : Nat} {chunks : List Chunk} {last : SizeLine}
    {trailer output : List UInt8} (hchunks : ∀ c ∈ chunks, c.Valid) (hlast : last.States 0)
    (hrounds : chunks.length < rounds) (hlen : (encode chunks last trailer).length < 2 ^ 32)
    (hfits : output.length + (chunks.flatMap Chunk.data).length ≤ outputSize) :
    (decodeFrom outputSize rounds (encode chunks last trailer) output).result =
      some (output ++ chunks.flatMap Chunk.data) := by
  induction chunks generalizing rounds output with
  | nil =>
    obtain ⟨rounds, rfl⟩ : ∃ k, rounds = k + 1 := ⟨rounds - 1, by simp at hrounds; omega⟩
    have hbytes : encode [] last trailer = last.bytes ++ trailer := by simp [encode]
    rw [hbytes, decodeFrom_line hlast (by decide), if_pos (.inl rfl)]
    simp
  | cons c chunks ih =>
    obtain ⟨rounds, rfl⟩ : ∃ k, rounds = k + 1 := ⟨rounds - 1, by simp at hrounds; omega⟩
    obtain ⟨hdata, hline⟩ := hchunks c List.mem_cons_self
    have hbytes : encode (c :: chunks) last trailer = c.line.bytes ++
        (c.data ++ cr :: lf :: encode chunks last trailer) := by
      simp [encode, Chunk.bytes]
    have hpos := List.length_pos_of_ne_nil hdata
    rw [hbytes] at hlen ⊢
    simp only [List.length_append, List.length_cons, List.flatMap_cons] at hlen hfits hrounds
    have htake : (c.data ++ cr :: lf :: encode chunks last trailer).take
        (min c.data.length (outputSize - output.length)) = c.data := by
      rw [Nat.min_eq_left (by omega), List.take_left']
      rfl
    have hdrop : (c.data ++ cr :: lf :: encode chunks last trailer).drop c.data.length =
        cr :: lf :: encode chunks last trailer := List.drop_left' rfl
    rw [decodeFrom_line hline (by omega), if_neg]
    · dsimp only
      rw [htake, hdrop, Logged.result_emit_bind, Logged.result_bind (atCrlf_crlf _),
        if_neg (by decide)]
      rw [List.flatMap_cons, ← List.append_assoc]
      refine ih (fun d hd => hchunks d (List.mem_cons_of_mem _ hd)) (by omega) (by omega) ?_
      rw [List.length_append]
      omega
    · simp only [List.length_append, List.length_cons]
      omega

theorem length_le_encode (chunks : List Chunk) (last : SizeLine) (trailer : List UInt8) :
    chunks.length ≤ (encode chunks last trailer).length := by
  induction chunks with
  | nil => exact Nat.zero_le _
  | cons c chunks ih =>
    simp only [encode, List.flatMap_cons, List.length_append, List.length_cons, Chunk.bytes] at ih ⊢
    omega

/-- Decoding ends on every byte string, reads inside it, fills no more than the output and takes no
size for another one; and of an encoding it gives the data, where the output has room for it. -/
theorem httpDecodeChunkedBody_correct :
    (∀ input outputSize, Logged.Returns Inside (httpDecodeChunkedBody input outputSize) fun r => r.length ≤ outputSize) ∧
    (∀ rest, Logged.Returns Inside (chunkSize rest 0 false) fun r => ∀ n haveDigit rest', r =
      some (n, haveDigit, rest') →
      Reads 0 rest n rest') ∧ ∀ chunks last trailer outputSize, (∀ c ∈ chunks, Chunk.Valid c) →
      SizeLine.States last 0 →
      (encode chunks last trailer).length < 2 ^ 32 →
      (chunks.flatMap Chunk.data).length ≤ outputSize →
      (httpDecodeChunkedBody (encode chunks last trailer) outputSize).result =
      some (chunks.flatMap Chunk.data) := by
  refine ⟨fun input outputSize => ?_, fun rest => ?_, ?_⟩
  · exact .ite (fun _ => .pure (Nat.zero_le _)) fun _ => decodeFrom_returns (Nat.lt_succ_self _)
      (Nat.zero_le _)
  · exact (chunkSize_returns rest 0 false (by decide)).mono fun r hr n haveDigit rest' h =>
      (hr n haveDigit rest' h).1
  · intro chunks last trailer outputSize hchunks hlast hlen hfits
    unfold httpDecodeChunkedBody
    split
    · rename_i hzero
      have hnil : chunks.flatMap Chunk.data = [] := List.length_eq_zero_iff.mp (by omega)
      rw [hnil]
      rfl
    · have hrounds : chunks.length < (encode chunks last trailer).length + 1 :=
        Nat.lt_succ_of_le (length_le_encode ..)
      have h := @decodeFrom_encode outputSize _ chunks last trailer [] hchunks hlast hrounds hlen (by simpa using hfits)
      exact h

/-- `4\r\nWiki\r\n`, and a last chunk with an extension -/
theorem httpDecodeChunkedBody_wiki :
    (httpDecodeChunkedBody (encode [⟨⟨[0x34], []⟩, [0x57, 0x69, 0x6B, 0x69]⟩]
    ⟨[0x30], [0x3B]⟩ [cr, lf]) 4).result = some [0x57, 0x69, 0x6B, 0x69] := by
  have hline : SizeLine.States ⟨[0x34], []⟩ 4 :=
    ⟨by decide, List.forall_mem_singleton.mpr rfl, by decide, by simp, by simp⟩
  refine httpDecodeChunkedBody_correct.2.2 _ _ _ 4 ?_ ⟨by decide,
    List.forall_mem_singleton.mpr rfl, by decide, ?_,
    List.forall_mem_singleton.mpr (by decide)⟩ (by decide) (by decide)
  · intro c hc
    obtain rfl := List.mem_singleton.mp hc
    exact ⟨by decide, hline⟩
  · rintro c ⟨⟩
    rfl

end Monios.Analysis.ChunkedBodies
