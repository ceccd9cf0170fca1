import Monios.Analysis.CodeTables
import Monios.Analysis.PageCodec

/-!
# Inflating a stream

`inflate_raw` on any stream that stands for some bytes writes these bytes, and nothing behind them
(`inflateFrom_spec`). Every function of the decoder has one lemma: given that the bits which come
next are those of what it reads, it returns what they stand for, and the bits behind them come next.
-/

set_option autoImplicit false

namespace Monios.Analysis.Inflate

open Monios.Library Monios.Library.Huffman Monios.Library.Lz77 Monios.Library.Deflate
open Monios.Model.Zcomp Monios.Model.Inflate
open Monios.Analysis.Zcomp (Stored)

structure Written (dst : Memory) (out : Out) (bytes : List UInt8) : Prop where
  stored : Stored out bytes
  frame : ∀ a, bytes.length ≤ a → out.dst a = dst a

section

variable {dst : Memory} {out : Out} {bytes : List UInt8}

/-- A byte goes behind the output. -/
theorem Written.put (h : Written dst out bytes) (b : UInt8) (hlen : bytes.length + 1 < 2 ^ 32) :
    Written dst (out.put b) (bytes ++ [b]) := by
  refine ⟨h.stored.put b hlen, fun a ha => ?_⟩
  rw [List.length_append, List.length_singleton] at ha
  have ho := h.stored.o
  unfold Out.put
  dsimp only
  rw [Function.update_of_ne (by omega)]
  exact h.frame a (by omega)

/-- Several bytes go behind the output. -/
theorem Written.copyIn (h : Written dst out bytes) (more : List UInt8)
    (hlen : bytes.length + more.length < 2 ^ 32) :
    Written dst (out.copyIn more) (bytes ++ more) := by
  refine ⟨h.stored.copyIn more hlen, fun a ha => ?_⟩
  rw [List.length_append] at ha
  have ho := h.stored.o
  unfold Out.copyIn
  dsimp only
  rw [if_neg (by omega)]
  exact h.frame a (by omega)

/-- The copy of a match, also of one that overlaps itself. -/
theorem copyLoop_spec {distance cap : Nat} (hcap : cap < 2 ^ 32) (hpos : 0 < distance)
    (length : Nat) (h : Written dst out bytes) (hdistance : distance ≤ bytes.length)
    (hlen : bytes.length + length ≤ cap) :
    ∃ out', copyLoop distance cap length out = .ok out' ∧
      Written dst out' (copyBack distance length bytes) := by
  induction length generalizing out bytes with
  | zero => exact ⟨out, rfl, h⟩
  | succ length ih =>
    have ho := h.stored.o
    have hbyte : bytes[bytes.length - distance]?.toList = [out.dst (out.o - distance)] := by
      rw [h.stored.dst _ (by omega), ho]
      rfl
    unfold copyLoop copyBack
    rw [if_neg (by omega), hbyte]
    apply ih (h.put _ (by omega))
    · rw [List.length_append]
      omega
    · rw [List.length_append, List.length_singleton]
      omega

end

/-- The table of lengths is that of the format. -/
theorem lenBase_eq : ∀ c, c < 29 → lenBase.getD c 0 = lengthBase c := by decide

theorem lenExtra_eq : ∀ c, c < 29 → lenExtra.getD c 0 = lengthExtra c := by decide

/-- The table of distances is that of the format. -/
theorem distBase_eq : ∀ c, c < 30 → Model.Inflate.distBase.getD c 0 = Deflate.distBase c := by decide

theorem distExtra_eq : ∀ c, c < 30 → Model.Inflate.distExtra.getD c 0 = Deflate.distExtra c := by decide

theorem lengthExtra_le : ∀ c, c < 29 → lengthExtra c ≤ 16 := by decide

theorem distExtra_le : ∀ c, c < 30 → Deflate.distExtra c ≤ 16 := by decide

theorem three_le_lengthBase : ∀ c, c < 29 → 3 ≤ lengthBase c := by decide

section

variable {lit dist : List Nat} {cap : Nat} {dst : Memory} {content final : List UInt8} {br : Br} {out : Out}
  {rest : List Bool}

/-- A match is decoded to the bytes it stands for. -/
theorem decodeMatch_spec (hdist : Coded dist) (hcap : cap < 2 ^ 32)
    {lengthCode lengthBits distCode distBits : Nat}
    (hitem : (Item.copy lengthCode lengthBits distCode distBits).Valid lit dist) (h : Ready br)
    (hw : Written dst out content)
    (hrem : remaining br = bitsLE lengthBits (lengthExtra lengthCode) ++
      (codeBits dist distCode ++ (bitsLE distBits (Deflate.distExtra distCode) ++ rest)))
    (hexpand : (Item.copy lengthCode lengthBits distCode distBits).token.expand content =
      some final)
    (hfinal : final.length ≤ cap) :
    ∃ br' out', decodeMatch (huffBuild dist) cap (257 + lengthCode) br out = .ok (br', out') ∧
      Ready br' ∧
      remaining br' = rest ∧ br'.buf = br.buf ∧ Written dst out' final := by
  obtain ⟨⟨hlc, hlb, -⟩, hdc, hdb, hused⟩ := hitem
  obtain ⟨br₁, hread₁, hready₁, hrem₁, hbuf₁⟩ :=
    brRead_spec h (lengthExtra_le lengthCode hlc) hlb hrem
  obtain ⟨br₂, hdecode, hready₂, hrem₂, hbuf₂⟩ := huffDecode_spec hdist hused hready₁ hrem₁
  obtain ⟨br₃, hread₃, hready₃, hrem₃, hbuf₃⟩ :=
    brRead_spec hready₂ (distExtra_le distCode hdc) hdb hrem₂
  unfold Item.token Token.expand at hexpand
  dsimp only at hexpand
  split at hexpand
  · next hback =>
    obtain rfl := Option.some.inj hexpand
    rw [length_copyBack hback.1 _ hback.2] at hfinal
    obtain ⟨out', hcopy, hw'⟩ := copyLoop_spec hcap hback.1 (lengthBase lengthCode + lengthBits) hw hback.2 hfinal
    refine ⟨br₃, out', ?_, hready₃, hrem₃, hbuf₃.trans (hbuf₂.trans hbuf₁), hw'⟩
    have ho := hw.stored.o
    unfold decodeMatch
    rw [Nat.add_sub_cancel_left]
    dsimp only
    rw [if_neg (by omega), lenExtra_eq lengthCode hlc, lenBase_eq lengthCode hlc, hread₁]
    dsimp only
    rw [hdecode]
    dsimp only
    rw [if_neg (by omega), distExtra_eq distCode hdc, distBase_eq distCode hdc, hread₃]
    dsimp only
    rw [if_neg (by omega), hcopy]
  · cases hexpand

/-- The symbols of a block are decoded one by one up to its end. -/
theorem decodeLoop_spec (hlit : Coded lit) (hdist : Coded dist)
    (hend : 0 < codeLength lit endOfBlock) (hcap : cap < 2 ^ 32) {items : List Item}
    (hitems : ∀ item ∈ items, item.Valid lit dist) (rounds : Nat)
    (hrounds : cap + 1 ≤ rounds + content.length) (h : Ready br) (hw : Written dst out content)
    (hrem : remaining br = itemsBits lit dist items ++ rest)
    (hexpand : expandAll (items.map Item.token) content = some final)
    (hfinal : final.length ≤ cap) :
    ∃ br' out', decodeLoop (huffBuild lit) (huffBuild dist) cap rounds br out = .ok (br', out') ∧
      Ready br' ∧
      remaining br' = rest ∧ br'.buf = br.buf ∧ Written dst out' final := by
  induction items generalizing rounds content br out with
  | nil =>
    obtain rfl := Option.some.inj hexpand
    obtain ⟨rounds, rfl⟩ := Nat.exists_eq_succ_of_ne_zero (show rounds ≠ 0 by omega)
    unfold itemsBits at hrem
    rw [List.flatMap_nil, List.nil_append] at hrem
    obtain ⟨br', hdecode, hready, hrem', hbuf⟩ := huffDecode_spec hlit hend h hrem
    refine ⟨br', out, ?_, hready, hrem', hbuf, hw⟩
    unfold decodeLoop
    rw [hdecode]
    dsimp only
    rw [if_pos (show endOfBlock = 256 from rfl)]
  | cons item items ih =>
    have hhead := hitems item List.mem_cons_self
    have htail : ∀ other ∈ items, other.Valid lit dist :=
      fun other hother => hitems other (List.mem_cons_of_mem item hother)
    have hbits : itemsBits lit dist (item :: items) ++ rest =
        item.bits lit dist ++ (itemsBits lit dist items ++ rest) := by
      unfold itemsBits
      rw [List.flatMap_cons, List.append_assoc, List.append_assoc, List.append_assoc]
    rw [hbits] at hrem
    rw [List.map_cons, expandAll] at hexpand
    obtain ⟨next, hnext, hrest⟩ := Option.bind_eq_some_iff.mp hexpand
    have hle := length_le_expandAll hrest
    cases item with
    | literal b =>
      obtain rfl : content ++ [b] = next := Option.some.inj hnext
      rw [List.length_append, List.length_singleton] at hle
      obtain ⟨rounds, rfl⟩ := Nat.exists_eq_succ_of_ne_zero (show rounds ≠ 0 by omega)
      obtain ⟨br₁, hdecode, hready₁, hrem₁, hbuf₁⟩ := huffDecode_spec hlit hhead h hrem
      have hb := b.toNat_lt
      have ho := hw.stored.o
      obtain ⟨br', out', hloop, hready, hrem', hbuf, hw'⟩ := ih htail rounds
        (by rw [List.length_append, List.length_singleton]; omega) hready₁ (hw.put b (by omega)) hrem₁ hrest
      refine ⟨br', out', ?_, hready, hrem', hbuf.trans hbuf₁, hw'⟩
      unfold decodeLoop
      rw [hdecode]
      dsimp only
      unfold decodeSymbol
      rw [if_neg (by omega), if_pos (by omega), if_neg (by omega), UInt8.ofNat_toNat]
      exact hloop
    | copy lengthCode lengthBits distCode distBits =>
      have hlengths : content.length + 3 ≤ next.length := by
        unfold Item.token Token.expand at hnext
        dsimp only at hnext
        split at hnext
        · next hback =>
          obtain rfl := Option.some.inj hnext
          have hthree := three_le_lengthBase lengthCode hhead.1.1
          rw [length_copyBack hback.1 _ hback.2]
          omega
        · cases hnext
      obtain ⟨rounds, rfl⟩ := Nat.exists_eq_succ_of_ne_zero (show rounds ≠ 0 by omega)
      have hrem₀ : remaining br = codeBits lit (257 + lengthCode) ++
          (bitsLE lengthBits (lengthExtra lengthCode) ++
          (codeBits dist distCode ++ (bitsLE distBits (Deflate.distExtra distCode) ++
            (itemsBits lit dist items ++ rest)))) := by
        rw [hrem]
        unfold Item.bits
        rw [List.append_assoc, List.append_assoc, List.append_assoc]
      obtain ⟨br₁, hdecode, hready₁, hrem₁, hbuf₁⟩ := huffDecode_spec hlit hhead.1.2.2 h hrem₀
      obtain ⟨br₂, out₂, hmatch, hready₂, hrem₂, hbuf₂, hw₂⟩ :=
        decodeMatch_spec hdist hcap hhead hready₁ hw hrem₁ hnext (hle.trans hfinal)
      obtain ⟨br', out', hloop, hready, hrem', hbuf, hw'⟩ :=
        ih htail rounds (by omega) hready₂ hw₂ hrem₂ hrest
      refine ⟨br', out', ?_, hready, hrem', hbuf.trans (hbuf₂.trans hbuf₁), hw'⟩
      unfold decodeLoop
      rw [hdecode]
      dsimp only
      unfold decodeSymbol
      rw [if_neg (by omega), if_neg (by omega), hmatch]
      exact hloop

end

/-- The order of the code lengths has each of them once. -/
theorem idxOf_clOrder : ∀ i, i < 19 → clOrder.idxOf (clOrder.getD i 0) = i ∧ clOrder.getD i 0 < 19 := by decide

theorem clOrder_idxOf : ∀ sym, sym < 19 → clOrder.idxOf sym < 19 ∧
    clOrder.getD (clOrder.idxOf sym) 0 = sym := by decide

section

variable {br : Br} {rest : List Bool}

/-- The lengths of the code-length code are read in their order. -/
theorem readClLens_spec {lens before : List Nat} (hlens : ∀ len ∈ lens, len < 8)
    (hlength : before.length + lens.length ≤ 19) {clLen : List Nat} (hclLength : clLen.length = 19)
    (hclLen : ∀ sym, sym < 19 → clLen.getD sym 0 = before.getD (clOrder.idxOf sym) 0) (h : Ready br)
    (hrem : remaining br = lens.flatMap (fun len => bitsLE len 3) ++ rest) :
    ∃ clLen' br', readClLens lens.length before.length clLen br = (clLen', br') ∧ Ready br' ∧
      remaining br' = rest ∧
      br'.buf = br.buf ∧ clLen'.length = 19 ∧
      ∀ sym, sym < 19 → clLen'.getD sym 0 = (before ++ lens).getD (clOrder.idxOf sym) 0 := by
  induction lens generalizing before clLen br with
  | nil =>
    refine ⟨clLen, br, rfl, h, hrem, rfl, hclLength, fun sym hsym => ?_⟩
    rw [List.append_nil]
    exact hclLen sym hsym
  | cons len lens ih =>
    rw [List.flatMap_cons, List.append_assoc] at hrem
    rw [List.length_cons] at hlength
    obtain ⟨br₁, hread, hready₁, hrem₁, hbuf₁⟩ :=
      brRead_spec h (by decide) (hlens len List.mem_cons_self) hrem
    have hlast : (before ++ [len]).length = before.length + 1 := by
      rw [List.length_append, List.length_singleton]
    have hnext : ∀ sym, sym < 19 → (clLen.set (clOrder.getD before.length 0) len).getD sym 0 =
        (before ++ [len]).getD (clOrder.idxOf sym) 0 := by
      intro sym hsym
      obtain ⟨hidx, hback⟩ := clOrder_idxOf sym hsym
      obtain ⟨horder, hlt⟩ := idxOf_clOrder before.length (by omega)
      rw [getD_set, hclLength]
      by_cases heq : clOrder.getD before.length 0 = sym
      · rw [if_pos ⟨heq, hlt⟩, ← heq, horder, List.getD_append_right _ _ _ _ (le_refl _),
          Nat.sub_self]
        rfl
      · rw [if_neg fun h => heq h.1, hclLen sym hsym]
        by_cases hin : clOrder.idxOf sym < before.length
        · rw [List.getD_append _ _ _ _ hin]
        · have hne : clOrder.idxOf sym ≠ before.length := by
            intro hlen
            rw [hlen] at hback
            exact heq hback
          rw [List.getD_eq_getElem?_getD, List.getD_eq_getElem?_getD,
            List.getElem?_eq_none (by omega),
            List.getElem?_eq_none (by omega)]
    obtain ⟨clLen', br', hloop, hready, hrem', hbuf, hlength', hall⟩ :=
      ih (fun other hother => hlens other (List.mem_cons_of_mem len hother)) (by omega)
        (by rw [List.length_set, hclLength]) hnext hready₁ hrem₁
    refine ⟨clLen', br', ?_, hready, hrem', hbuf.trans hbuf₁, hlength', fun sym hsym => ?_⟩
    · rw [List.length_cons]
      unfold readClLens
      rw [hread, ← hlast]
      exact hloop
    · rw [hall sym hsym, List.append_assoc, List.singleton_append]

/-- Expanding makes the list no shorter. -/
theorem length_le_expandLengths {ops : List LengthOp} {out final : List Nat}
    (h : expandLengths ops out = some final) :
    out.length ≤ final.length := by
  induction ops generalizing out with
  | nil =>
    obtain rfl := Option.some.inj h
    exact le_refl _
  | cons op ops ih =>
    obtain ⟨next, hnext, hrest⟩ := Option.bind_eq_some_iff.mp h
    refine le_trans ?_ (ih hrest)
    cases op with
    | previous count =>
      obtain ⟨len, -, rfl⟩ := Option.map_eq_some_iff.mp hnext
      rw [List.length_append]
      exact Nat.le_add_right _ _
    | _ =>
      obtain rfl := Option.some.inj hnext
      rw [List.length_append]
      exact Nat.le_add_right _ _

theorem getLast?_append_replicate (out : List Nat) (len : Nat) {count : Nat} (hcount : 0 < count) :
    (out ++ List.replicate count len).getLast? = some len := by
  rw [List.getLast?_append, List.getLast?_replicate, if_neg hcount.ne']
  rfl

/-- What the symbol of a step and the bits behind it add to the lengths; at least one length is
added, and `prev` is the last one then. -/
theorem addLengths_spec {op : LengthOp} (hop : op.Valid) {out next : List Nat} {prev : Nat}
    (hprev : prev = out.getLast?.getD 0) (h : Ready br) (hrem : remaining br = op.extraBits ++ rest)
    (hexpand : op.expand out = some next) :
    ∃ more br', addLengths op.sym prev br = (more, next.getLast?.getD 0, br') ∧ Ready br' ∧
      remaining br' = rest ∧
      br'.buf = br.buf ∧ next = out ++ more ∧ 0 < more.length := by
  cases op with
  | length len =>
    obtain rfl := Option.some.inj hexpand
    have hlt : len < 16 := Nat.lt_succ_of_le hop
    refine ⟨[len], br, ?_, h, hrem, rfl, rfl, Nat.one_pos⟩
    rw [List.getLast?_concat]
    exact if_pos hlt
  | previous count =>
    obtain ⟨len, hlen, rfl⟩ := Option.map_eq_some_iff.mp hexpand
    obtain ⟨hmin, hmax⟩ := hop
    obtain ⟨br', hread, hready, hrem', hbuf⟩ :=
      brRead_spec h (by decide) (show count - 3 < 2 ^ 2 by omega) hrem
    have hcount : 3 + (count - 3) = count := by omega
    rw [hlen, Option.getD_some] at hprev
    refine ⟨List.replicate count len, br', ?_, hready, hrem', hbuf, rfl, by rw [List.length_replicate]; omega⟩
    unfold addLengths LengthOp.sym
    dsimp only
    rw [if_neg (by decide), if_pos rfl, hread, getLast?_append_replicate out len (by omega), hprev]
    dsimp only
    rw [hcount, Option.getD_some]
  | zeros count =>
    obtain rfl := Option.some.inj hexpand
    obtain ⟨hmin, hmax⟩ := hop
    obtain ⟨br', hread, hready, hrem', hbuf⟩ :=
      brRead_spec h (by decide) (show count - 3 < 2 ^ 3 by omega) hrem
    have hcount : 3 + (count - 3) = count := by omega
    refine ⟨List.replicate count 0, br', ?_, hready, hrem', hbuf, rfl, by rw [List.length_replicate]; omega⟩
    unfold addLengths LengthOp.sym
    dsimp only
    rw [if_neg (by decide), if_neg (by decide), if_pos rfl, hread,
      getLast?_append_replicate out 0 (by omega)]
    dsimp only
    rw [hcount, Option.getD_some]
  | manyZeros count =>
    obtain rfl := Option.some.inj hexpand
    obtain ⟨hmin, hmax⟩ := hop
    obtain ⟨br', hread, hready, hrem', hbuf⟩ :=
      brRead_spec h (by decide) (show count - 11 < 2 ^ 7 by omega) hrem
    have hcount : 11 + (count - 11) = count := by omega
    refine ⟨List.replicate count 0, br', ?_, hready, hrem', hbuf, rfl, by rw [List.length_replicate]; omega⟩
    unfold addLengths LengthOp.sym
    dsimp only
    rw [if_neg (by decide), if_neg (by decide), if_neg (by decide), hread,
      getLast?_append_replicate out 0 (by omega)]
    dsimp only
    rw [hcount, Option.getD_some]

/-- The lengths of both codes are read as their operations expand to. -/
theorem readLengthsFrom_spec {cl : List Nat} (hcl : Coded cl) {ops : List LengthOp}
    (hops : ∀ op ∈ ops, op.Valid ∧ 0 < codeLength cl op.sym) {out final : List Nat} {prev : Nat}
    (rounds : Nat) (hrounds : final.length ≤ rounds + out.length)
    (hprev : prev = out.getLast?.getD 0) (h : Ready br) (hrem : remaining br =
      ops.flatMap (LengthOp.bits cl) ++ rest) (hexpand : expandLengths ops out = some final) :
    ∃ br', readLengthsFrom (huffBuild cl) final.length rounds out prev br = (some final, br') ∧
      Ready br' ∧
      remaining br' = rest ∧ br'.buf = br.buf := by
  induction ops generalizing out prev rounds br with
  | nil =>
    obtain rfl := Option.some.inj hexpand
    refine ⟨br, ?_, h, hrem, rfl⟩
    cases rounds with
    | zero => rfl
    | succ rounds => exact if_neg (Nat.lt_irrefl _)
  | cons op ops ih =>
    obtain ⟨hvalid, hused⟩ := hops op List.mem_cons_self
    obtain ⟨next, hnext, hrest⟩ := Option.bind_eq_some_iff.mp hexpand
    rw [List.flatMap_cons, List.append_assoc] at hrem
    unfold LengthOp.bits at hrem
    rw [List.append_assoc] at hrem
    obtain ⟨br₁, hdecode, hready₁, hrem₁, hbuf₁⟩ := huffDecode_spec hcl hused h hrem
    obtain ⟨more, br₂, hadd, hready₂, hrem₂, hbuf₂, rfl, hpos⟩ :=
      addLengths_spec hvalid hprev hready₁ hrem₁ hnext
    have hle := length_le_expandLengths hrest
    have hlength : (out ++ more).length = out.length + more.length := List.length_append
    obtain ⟨rounds, rfl⟩ := Nat.exists_eq_succ_of_ne_zero (show rounds ≠ 0 by omega)
    obtain ⟨br', hloop, hready, hrem', hbuf⟩ :=
      ih (fun other hother => hops other (List.mem_cons_of_mem op hother)) rounds
      (by omega) rfl hready₂ hrem₂ hrest
    refine ⟨br', ?_, hready, hrem', hbuf.trans (hbuf₂.trans hbuf₁)⟩
    unfold readLengthsFrom
    rw [if_pos (by omega), hdecode]
    dsimp only
    rw [hadd]
    dsimp only
    rw [List.take_of_length_le (by omega)]
    exact hloop

end

/-- The fixed code is one that `huff_build` can build. -/
theorem coded_fixedLit : Coded fixedLit := by
  refine ⟨?_, by decide +kernel⟩
  constructor
  · intro len hlen
    unfold fixedLit at hlen
    simp only [List.mem_append, List.mem_replicate] at hlen
    omega
  · unfold kraft fixedLit
    simp only [List.map_append, List.map_replicate, List.sum_append, List.sum_replicate]
    decide

theorem coded_fixedDist : Coded (List.replicate 30 5) := by
  refine ⟨?_, by decide⟩
  constructor
  · intro len hlen
    rw [List.mem_replicate] at hlen
    omega
  · unfold kraft
    rw [List.map_replicate, List.sum_replicate]
    decide

/-- The fixed lengths of the code are those of the format. -/
theorem fixedLitlenLengths_eq : fixedLitlenLengths = fixedLit := by decide +kernel

/-- The fixed distances have the same code for the 30 that the format uses. -/
theorem fixedDist_eq : ∀ c, c < 30 → codeLength fixedDist c = codeLength (List.replicate 30 5) c ∧
    codeOf fixedDist c = codeOf (List.replicate 30 5) c := by decide

/-- An item of a fixed block is encoded alike under both. -/
theorem fixed_of_valid {item : Item} (h : item.Valid fixedLit fixedDist) :
    item.Valid fixedLit (List.replicate 30 5) ∧
      item.bits fixedLit (List.replicate 30 5) = item.bits fixedLit fixedDist := by
  cases item with
  | literal b => exact ⟨h, rfl⟩
  | copy lengthCode lengthBits distCode distBits =>
    obtain ⟨hlength, hdc, hdb, hused⟩ := h
    obtain ⟨hlen, hcode⟩ := fixedDist_eq distCode hdc
    refine ⟨⟨hlength, hdc, hdb, by rw [← hlen]; exact hused⟩, ?_⟩
    unfold Item.bits codeBits
    dsimp only
    rw [hlen, hcode]

section

variable {cap pos : Nat} {dst : Memory} {content mid : List UInt8} {br : Br} {out : Out} {rest : List Bool}

/-- At a byte the reader is ready. -/
theorem ready_aligned {buf : List UInt8} {pos : Nat} (hpos : pos ≤ buf.length) :
    Ready ⟨buf, pos, 0, 0, false⟩ ∧ remaining ⟨buf, pos, 0, 0, false⟩ = bytesBits (buf.drop pos) :=
  ⟨⟨Nat.one_pos, Nat.succ_pos 7, hpos, rfl⟩, List.nil_append _⟩

/-- The bits that are left over are those of the byte that was begun. -/
theorem Ready.bl_eq (h : Ready br) (hpos : pos + (remaining br).length = 8 * br.buf.length) :
    br.bl = (8 - pos % 8) % 8 := by
  have hbl := h.bl
  have hle := h.pos
  unfold remaining at hpos
  rw [List.length_append, length_bitsLE, length_bytesBits, List.length_drop] at hpos
  omega

/-- A stored block is copied. -/
theorem storedBlock_spec (hcap : cap < 2 ^ 32) {pad : List Bool} {bytes : List UInt8}
    (hpad : pad.length = br.bl) (hbytes : bytes.length < 2 ^ 16) (h : Ready br)
    (hbuf : br.buf.length < 2 ^ 32) (hw : Written dst out content) (hrem : remaining br = pad ++
      (bitsLE bytes.length 16 ++ (bitsLE (2 ^ 16 - 1 - bytes.length) 16 ++
      (bytesBits bytes ++ rest)))) (hroom : content.length + bytes.length ≤ cap) :
    ∃ br' out', storedBlock cap br out = .ok
    (br', out') ∧ Ready br' ∧ remaining br' = rest ∧ br'.buf = br.buf ∧
      Written dst out' (content ++ bytes) := by
  obtain ⟨-, hdrop⟩ := List.append_inj hrem (by rw [length_bitsLE, hpad])
  have hbits : bytesBits (br.buf.drop br.pos) =
      bytesBits (le16 bytes.length ++ (le16 (2 ^ 16 - 1 - bytes.length) ++ bytes)) ++ rest := by
    rw [hdrop, bytesBits_append, bytesBits_append, bytesBits_le16 hbytes,
      bytesBits_le16 (by omega), List.append_assoc,
      List.append_assoc]
  obtain ⟨tail, htail, hrest⟩ := eq_append_of_bytesBits hbits
  have hle := h.pos
  have hwhole : br.buf = br.buf.take br.pos ++ (le16 bytes.length ++ (le16 (2 ^ 16 - 1 - bytes.length) ++
      (bytes ++ tail))) := by
    rw [List.append_assoc, List.append_assoc] at htail
    rw [← htail, List.take_append_drop]
  have htake : (br.buf.take br.pos).length = br.pos := by
    rw [List.length_take]
    omega
  have hlength : br.buf.length = br.pos + (2 + (2 + (bytes.length + tail.length))) := by
    have := congrArg List.length hwhole
    rw [List.length_append, htake, List.length_append, List.length_append, List.length_append,
      length_le16,
      length_le16] at this
    exact this
  have hlen : readU16 br.buf br.pos = bytes.length := by
    have := readU16_append (br.buf.take br.pos) (le16 bytes.length ++ (le16 (2 ^ 16 - 1 - bytes.length) ++
      (bytes ++ tail))) 0
    rw [← hwhole, htake, readU16_le16 hbytes] at this
    exact this
  have hnlen : readU16 br.buf (br.pos + 2) = 2 ^ 16 - 1 - bytes.length := by
    have := readU16_append (br.buf.take br.pos ++ le16 bytes.length) (le16 (2 ^ 16 - 1 - bytes.length) ++
      (bytes ++ tail)) 0
    rw [List.append_assoc, ← hwhole, List.length_append, htake, length_le16,
      readU16_le16 (by omega)] at this
    exact this
  have hdata : br.buf.drop (br.pos + 4) = bytes ++ tail := by
    have := @List.drop_left _ (br.buf.take br.pos ++ (le16 bytes.length ++ le16 (2 ^ 16 - 1 - bytes.length)))
      (bytes ++ tail)
    rw [List.append_assoc, List.append_assoc, ← hwhole, List.length_append, htake,
      List.length_append, length_le16,
      length_le16] at this
    exact this
  have hslice : slice br.buf (br.pos + 4) bytes.length = bytes := by
    unfold slice
    rw [hdata, List.take_left]
  have hend : br.buf.drop (br.pos + 4 + bytes.length) = tail := by
    rw [← List.drop_drop, hdata, List.drop_left]
  have ho := hw.stored.o
  obtain ⟨hready, hrem'⟩ := @ready_aligned br.buf (br.pos + 4 + bytes.length) (by omega)
  rw [hend, hrest] at hrem'
  refine ⟨_, _, ?_, hready, hrem', rfl, hw.copyIn bytes (by omega)⟩
  unfold storedBlock brAlign
  dsimp only
  rw [hlen, hnlen, if_neg (by omega), if_neg (by omega), Nat.mod_eq_of_lt (show br.pos + 4 < 2 ^ 32 by omega),
    if_neg (by omega), if_neg (by omega), hslice, Nat.mod_eq_of_lt (show br.pos + 4 + bytes.length < 2 ^ 32 by omega), h.err]

/-- A block with its own codes is decoded. -/
theorem dynamicBlock_spec (hcap : cap < 2 ^ 32) {header : Header} (hheader : header.Valid)
    (hend : 0 < codeLength header.lit endOfBlock) {items : List Item}
    (hitems : ∀ item ∈ items, item.Valid header.lit header.dist) (h : Ready br)
    (hw : Written dst out content)
    (hrem : remaining br = header.bits ++ (itemsBits header.lit header.dist items ++ rest))
    (hexpand : expandAll (items.map Item.token) content = some mid) (hmid : mid.length ≤ cap) :
    ∃ br' out', dynamicBlock cap br out = .ok (br', out') ∧ Ready br' ∧ remaining br' = rest ∧
      br'.buf = br.buf ∧
      Written dst out' mid := by
  obtain ⟨hlensMin, hlensMax, hlens⟩ := hheader.lens
  obtain ⟨hlitMin, hlitMax⟩ := hheader.lit
  obtain ⟨hdistMin, hdistMax⟩ := hheader.dist
  unfold Header.bits at hrem
  rw [List.append_assoc, List.append_assoc, List.append_assoc, List.append_assoc] at hrem
  obtain ⟨br₁, hread₁, hready₁, hrem₁, hbuf₁⟩ :=
    brRead_spec h (by decide) (show header.lit.length - 257 < 2 ^ 5 by omega) hrem
  obtain ⟨br₂, hread₂, hready₂, hrem₂, hbuf₂⟩ :=
    brRead_spec hready₁ (by decide) (show header.dist.length - 1 < 2 ^ 5 by omega) hrem₁
  obtain ⟨br₃, hread₃, hready₃, hrem₃, hbuf₃⟩ :=
    brRead_spec hready₂ (by decide) (show header.lens.length - 4 < 2 ^ 4 by omega) hrem₂
  obtain ⟨clLen, br₄, hread₄, hready₄, hrem₄, hbuf₄, hclLength, hclLen⟩ :=
    @readClLens_spec br₃ _ header.lens [] hlens (by rw [List.length_nil]; omega) (List.replicate 19 0)
      List.length_replicate (by decide) hready₃ hrem₃
  have hclLength' : header.cl.length = 19 := by
    unfold Header.cl placed
    rw [List.length_map, List.length_range]
  have hcl : clLen = header.cl := by
    apply List.ext_getElem (hclLength.trans hclLength'.symm)
    intro sym hsym hsym'
    have hget := hclLen sym (by omega)
    rw [List.getD_eq_getElem?_getD, List.getElem?_eq_getElem hsym, Option.getD_some] at hget
    rw [hget]
    simp only [Header.cl, placed, List.getElem_map, List.getElem_range]
    rfl
  have htotal : (header.lit ++ header.dist).length = header.lit.length + header.dist.length :=
    List.length_append
  obtain ⟨br₅, hread₅, hready₅, hrem₅, hbuf₅⟩ := readLengthsFrom_spec
    ⟨hheader.clCode.mono (by decide), by rw [hclLength']; decide⟩ hheader.ops
    (header.lit ++ header.dist).length (Nat.le_add_right _ _) rfl hready₄ hrem₄ hheader.expand
  obtain ⟨br', out', hloop, hready, hrem', hbuf, hw'⟩ := decodeLoop_spec ⟨hheader.litCode, by omega⟩
    ⟨hheader.distCode, by omega⟩ hend hcap hitems
    (cap + 1) (Nat.le_add_right _ _) hready₅ hw hrem₅ hexpand hmid
  refine ⟨br', out', ?_, hready, hrem', hbuf.trans (hbuf₅.trans (hbuf₄.trans (hbuf₃.trans (hbuf₂.trans hbuf₁)))), hw'⟩
  have hdynamic : readDynamicLengths (header.lit.length + header.dist.length) br₂ =
      (some (header.lit ++ header.dist), br₅) := by
    unfold readDynamicLengths
    rw [hread₃]
    dsimp only
    rw [Nat.sub_add_cancel hlensMin]
    rw [List.length_nil] at hread₄
    rw [hread₄]
    dsimp only
    rw [hcl, ← htotal]
    exact hread₅
  unfold dynamicBlock
  rw [hread₁]
  dsimp only
  rw [hread₂]
  dsimp only
  rw [Nat.sub_add_cancel hlitMin, Nat.sub_add_cancel hdistMin, if_neg (by omega), hdynamic]
  dsimp only
  rw [List.take_left, List.drop_left, List.take_length]
  exact hloop

/-- Every block is decoded to its bytes. -/
theorem inflateBlock_spec (hcap : cap < 2 ^ 32) {block : Block} (hblock : block.Valid pos)
    (h : Ready br) (hbuf : br.buf.length < 2 ^ 32)
    (hpos : pos + 1 + (remaining br).length = 8 * br.buf.length) (hw : Written dst out content)
    (hrem : remaining br = block.body ++ rest)
    (hexpand : expandAll block.tokens content = some mid) (hmid : mid.length ≤ cap) :
    ∃ btype br₁ br' out', brRead 2 br = (btype, br₁) ∧
      inflateBlock btype cap br₁ out = .ok (br', out') ∧ Ready br' ∧
      remaining br' = rest ∧ br'.buf = br.buf ∧ Written dst out' mid := by
  cases block with
  | stored pad bytes =>
    obtain ⟨hpad, hbytes⟩ := hblock
    unfold Block.body at hrem
    rw [List.append_assoc, List.append_assoc, List.append_assoc, List.append_assoc] at hrem
    obtain ⟨br₁, hread, hready₁, hrem₁, hbuf₁⟩ := brRead_spec h (by decide) (by decide) hrem
    obtain rfl : content ++ bytes = mid := Option.some.inj hexpand
    have hlength : (remaining br).length = 2 + (remaining br₁).length := by
      rw [hrem, hrem₁, List.length_append, length_bitsLE]
    have hpos₁ : (pos + 3) + (remaining br₁).length = 8 * br₁.buf.length := by
      rw [hbuf₁]
      omega
    obtain ⟨br', out', hstored, hready, hrem', hbuf', hw'⟩ :=
      storedBlock_spec hcap (hpad.trans (hready₁.bl_eq hpos₁).symm)
      hbytes hready₁ (by rw [hbuf₁]; exact hbuf) hw hrem₁ (by rw [← List.length_append]; exact hmid)
    exact ⟨0, br₁, br', out', hread, hstored, hready, hrem', hbuf'.trans hbuf₁, hw'⟩
  | fixed items =>
    unfold Block.body at hrem
    rw [List.append_assoc] at hrem
    obtain ⟨br₁, hread, hready₁, hrem₁, hbuf₁⟩ := brRead_spec h (by decide) (by decide) hrem
    have hsame : itemsBits fixedLit (List.replicate 30 5) items =
        itemsBits fixedLit fixedDist items := by
      unfold itemsBits
      congr 1
      exact List.flatMap_congr fun item hitem => (fixed_of_valid (hblock item hitem)).2
    rw [← hsame] at hrem₁
    obtain ⟨br', out', hloop, hready, hrem', hbuf', hw'⟩ :=
      decodeLoop_spec coded_fixedLit coded_fixedDist (by decide)
      hcap (fun item hitem => (fixed_of_valid (hblock item hitem)).1) (cap + 1) (Nat.le_add_right _ _) hready₁ hw hrem₁ hexpand hmid
    refine ⟨1, br₁, br', out', hread, ?_, hready, hrem', hbuf'.trans hbuf₁, hw'⟩
    unfold inflateBlock fixedBlock decodeBlockStream
    rw [fixedLitlenLengths_eq]
    exact hloop
  | dynamic header items =>
    obtain ⟨hheader, hend, hitems⟩ := hblock
    unfold Block.body at hrem
    rw [List.append_assoc, List.append_assoc] at hrem
    obtain ⟨br₁, hread, hready₁, hrem₁, hbuf₁⟩ := brRead_spec h (by decide) (by decide) hrem
    obtain ⟨br', out', hdynamic, hready, hrem', hbuf', hw'⟩ :=
      dynamicBlock_spec hcap hheader hend hitems hready₁ hw hrem₁ hexpand hmid
    exact ⟨2, br₁, br', out', hread, hdynamic, hready, hrem', hbuf'.trans hbuf₁, hw'⟩

end

/-- The blocks of a stream are decoded one after the other. -/
theorem inflateFrom_spec {cap : Nat} (hcap : cap < 2 ^ 32) {blocks : List Block}
    (hne : blocks ≠ []) {pos : Nat} (hvalid : ValidFrom pos blocks) {br : Br} (h : Ready br)
    (hbuf : br.buf.length < 2 ^ 32) (hpos : pos + (remaining br).length = 8 * br.buf.length)
    {dst : Memory} {out : Out} {content final : List UInt8} (hw : Written dst out content)
    {rest : List Bool} (hrem : remaining br = streamBits blocks ++ rest)
    (hexpand : expandAll (tokens blocks) content = some final) (hfinal : final.length ≤ cap)
    (rounds : Nat) (hrounds : (remaining br).length < rounds) :
    ∃ out', inflateFrom cap rounds br out = .ok out' ∧ Written dst out' final := by
  induction blocks generalizing pos br out content rounds with
  | nil => exact absurd rfl hne
  | cons block blocks ih =>
    obtain ⟨hblock, hblocks⟩ := hvalid
    obtain ⟨rounds, rfl⟩ := Nat.exists_eq_succ_of_ne_zero (Nat.ne_of_gt (Nat.zero_lt_of_lt hrounds))
    unfold tokens at hexpand
    rw [List.flatMap_cons, expandAll_append] at hexpand
    obtain ⟨mid, hmid, hlast⟩ := Option.bind_eq_some_iff.mp hexpand
    have hle := length_le_expandAll hlast
    unfold streamBits at hrem
    rw [List.cons_append, List.append_assoc] at hrem
    obtain ⟨br₁, hread, hready₁, hrem₁, hbuf₁⟩ := brRead_one h hrem
    have hlength : (remaining br).length = (remaining br₁).length + 1 := by
      rw [hrem, hrem₁, List.length_cons]
    obtain ⟨btype, br₂, br₃, out₃, hread₂, hinflate, hready₃, hrem₃, hbuf₃, hw₃⟩ :=
      inflateBlock_spec hcap hblock hready₁ (by rw [hbuf₁]; exact hbuf) (by rw [hbuf₁]; omega) hw hrem₁ hmid
        (hle.trans hfinal)
    have hlength₁ : (remaining br₁).length = block.body.length + (remaining br₃).length := by
      rw [hrem₁, hrem₃, List.length_append]
    unfold inflateFrom
    rw [hread]
    dsimp only
    rw [hread₂]
    dsimp only
    rw [hinflate]
    dsimp only
    cases blocks with
    | nil =>
      obtain rfl := Option.some.inj hlast
      refine ⟨out₃, ?_, hw₃⟩
      rw [if_pos (by decide), hready₃.err]
      rfl
    | cons next blocks =>
      obtain ⟨out', hloop, hw'⟩ := ih (List.cons_ne_nil _ _) hblocks hready₃ (by rw [hbuf₃, hbuf₁]; exact hbuf)
        (by rw [hbuf₃, hbuf₁]; omega) hw₃ hrem₃ hlast rounds (by omega)
      exact ⟨out', hloop, hw'⟩

/-- What `inflate_raw` does with an encoding of some data. -/
theorem inflateRaw_eq {src : Buffer} {blocks : List Block} {data : List UInt8}
    (h : Encodes src.val blocks data) (out : Memory) {outcap : UInt32}
    (hcap : data.length ≤ outcap.toNat) :
    ∃ dst, inflateRaw src out outcap = (toInt data.length, dst) ∧
      (List.range data.length).map dst = data ∧
      ∀ a, data.length ≤ a → dst a = out a := by
  obtain ⟨rest, hbits⟩ := h.bits
  obtain ⟨hready, hrem⟩ := @ready_aligned src.val 0 (Nat.zero_le _)
  rw [List.drop_zero] at hrem
  obtain ⟨last, hlast, hw⟩ := inflateFrom_spec outcap.toNat_lt h.nonempty h.valid hready src.property
    (by rw [hrem, length_bytesBits]; exact Nat.zero_add _) (show Written out ⟨0, out⟩ [] from ⟨Stored.nil out, fun _ _ => rfl⟩)
    (hrem.trans hbits) h.expands hcap (8 * src.val.length + 1) (by rw [hrem, length_bytesBits]; exact Nat.lt_succ_self _)
  refine ⟨last.dst, ?_, ?_, hw.frame⟩
  · unfold inflateRaw
    rw [hlast, ← hw.stored.o]
  · rw [← hw.stored.o]
    exact hw.stored.bytes_eq

def Inflates (src : Buffer) (data : List UInt8) (out : Memory) (outcap : UInt32) : Prop :=
  ∃ dst, inflateRaw src out outcap = ((data.length : Int), dst) ∧ (List.range data.length).map dst = data ∧
    ∀ a, data.length ≤ a → dst a = out a

/-- A length is its own int if and only if it is below 2^31. -/
theorem toInt_eq_iff {n : Nat} (h : n < 2 ^ 32) : toInt n = (n : Int) ↔ n < 2 ^ 31 := by
  unfold toInt
  rw [Int.bmod_def]
  omega

/-- For every stream of blocks of any kinds, and room for the data: the data are written, and the
size that is returned is right if it is not too large for an `int`, and only then. -/
theorem inflateRaw_inflates {src : Buffer} {blocks : List Block} {data : List UInt8}
    (h : Encodes src.val blocks data) (out : Memory) {outcap : UInt32}
    (hcap : data.length ≤ outcap.toNat) :
    Inflates src data out outcap ↔ data.length < 2 ^ 31 := by
  obtain ⟨dst, heq, hdata, hframe⟩ := inflateRaw_eq h out hcap
  have hlt : data.length < 2 ^ 32 := hcap.trans_lt outcap.toNat_lt
  rw [← toInt_eq_iff hlt]
  constructor
  · rintro ⟨dst', heq', -, -⟩
    rw [heq] at heq'
    exact (Prod.mk.inj heq').1
  · intro hint
    rw [hint] at heq
    exact ⟨dst, heq, hdata, hframe⟩

def sampleHeader : Header where
  lens := [0, 0, 1, 2] ++ (List.replicate 13 0 ++ [2])
  ops := [.manyZeros 65, .length 1, .manyZeros 138, .manyZeros 52, .length 1, .length 0]
  lit := List.replicate 65 0 ++ (1 :: (List.replicate 190 0 ++ [1]))
  dist := [0]

def sampleBlocks : List Block :=
  [.stored (List.replicate 5 false) [65], .fixed [.literal 66, .copy 0 0 1 0], .dynamic sampleHeader [.literal 65, .literal 65]]

def sampleStream : Buffer :=
  ⟨[0, 1, 0, 254, 255, 65, 114, 2, 66, 64, 1, 112, 32, 2, 0, 0, 0, 0, 136, 109, 127, 169, 35], by decide⟩

theorem valid_sampleHeader : sampleHeader.Valid where
  lens := by decide
  lit := by decide +kernel
  dist := by decide
  ops := by
    intro op hop
    unfold sampleHeader at hop
    simp only [List.mem_cons, List.not_mem_nil, or_false] at hop
    rcases hop with rfl | rfl | rfl | rfl | rfl | rfl
    · exact ⟨⟨by decide, by decide⟩, by decide⟩
    · exact ⟨show 1 ≤ 15 by decide, by decide⟩
    · exact ⟨⟨by decide, by decide⟩, by decide⟩
    · exact ⟨⟨by decide, by decide⟩, by decide⟩
    · exact ⟨show 1 ≤ 15 by decide, by decide⟩
    · exact ⟨show 0 ≤ 15 by decide, by decide⟩
  expand := by decide +kernel
  clCode := ⟨by decide, by decide⟩
  litCode := ⟨by decide +kernel, by decide +kernel⟩
  distCode := ⟨by decide, by decide⟩

/-- A stream with a stored, a fixed and a dynamic block. -/
theorem encodes_sampleStream :
    Encodes sampleStream.val sampleBlocks [65, 66, 65, 66, 65, 65, 65] where
  nonempty := List.cons_ne_nil _ _
  valid := by
    refine ⟨⟨by decide, by decide⟩, ?_, ⟨valid_sampleHeader, by decide, ?_⟩, trivial⟩
    · intro item hitem
      simp only [List.mem_cons, List.not_mem_nil, or_false] at hitem
      rcases hitem with rfl | rfl
      · exact show 0 < codeLength fixedLit 66 by decide
      · exact ⟨⟨by decide, by decide, by decide⟩, by decide, by decide, by decide⟩
    · intro item hitem
      simp only [List.mem_cons, List.not_mem_nil, or_false] at hitem
      rcases hitem with rfl | rfl
      · exact show 0 < codeLength sampleHeader.lit 65 by decide
      · exact show 0 < codeLength sampleHeader.lit 65 by decide
  bits := ⟨[false, false], by decide +kernel⟩
  expands := by decide

/-- The sample is decoded. -/
theorem inflateRaw_sampleStream :
    Inflates sampleStream [65, 66, 65, 66, 65, 65, 65] (fun _ => 0) 7 ↔ 7 < 2 ^ 31 :=
  inflateRaw_inflates encodes_sampleStream (fun _ => 0) (by decide)

def zeroChunks : List (List UInt8) := List.replicate (2 ^ 16) (List.replicate (2 ^ 15) 0)

theorem length_zeroChunks : zeroChunks.length = 2 ^ 16 ∧ zeroChunks.flatten.length = 2 ^ 31 := by
  unfold zeroChunks
  refine ⟨List.length_replicate, ?_⟩
  rw [List.length_flatten, List.map_replicate, List.sum_replicate, List.length_replicate]
  rfl

theorem length_storedBytes_zeroChunks : (storedBytes zeroChunks ++ []).length < 2 ^ 32 := by
  obtain ⟨hchunks, hbytes⟩ := length_zeroChunks
  rw [List.append_nil, length_storedBytes, hchunks, hbytes]
  decide

/-- Data of 2^31 bytes have a negative length. -/
theorem not_inflates_zeroChunks :
    Encodes (storedBytes zeroChunks ++ []) (zeroChunks.map alignedBlock) zeroChunks.flatten ∧
      zeroChunks.flatten.length ≤ (UInt32.ofNat (2 ^ 31)).toNat ∧
      ¬ Inflates ⟨storedBytes zeroChunks ++ [], length_storedBytes_zeroChunks⟩ zeroChunks.flatten
        (fun _ => 0)
        (UInt32.ofNat (2 ^ 31)) := by
  obtain ⟨hchunks, hbytes⟩ := length_zeroChunks
  have hne : zeroChunks ≠ [] := by
    intro hnil
    rw [hnil] at hchunks
    exact absurd hchunks (by decide)
  have hsmall : ∀ chunk ∈ zeroChunks, chunk.length < 2 ^ 16 := by
    intro chunk hchunk
    rw [List.eq_of_mem_replicate hchunk, List.length_replicate]
    decide
  have hencodes := encodes_storedBytes hne hsmall []
  have hcap : zeroChunks.flatten.length ≤ (UInt32.ofNat (2 ^ 31)).toNat := by
    rw [hbytes]
    decide
  refine ⟨hencodes, hcap, fun hinflates => ?_⟩
  obtain ⟨dst, heq, -, -⟩ := hinflates
  obtain ⟨dst', heq', -, -⟩ := @inflateRaw_eq ⟨storedBytes zeroChunks ++ [], length_storedBytes_zeroChunks⟩
    _ _ hencodes (fun _ => 0) _ hcap
  have hint : toInt zeroChunks.flatten.length = (zeroChunks.flatten.length : Int) :=
    (Prod.mk.inj (heq'.symm.trans heq)).1
  rw [toInt_eq_iff (by rw [hbytes]; decide), hbytes] at hint
  exact absurd hint (by decide)

end Monios.Analysis.Inflate
