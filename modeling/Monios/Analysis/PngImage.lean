import Monios.Model.Png

/-!
# The PNG encoder

`Decodable` is what the output of `png_encode_rgb` should be: the four parts with their lengths and
checksums, and a payload that is the zlib stream which was built in the output buffer and that
`zlib_inflate` turns into the rows of the image. It never is.
-/

set_option autoImplicit false

namespace Monios.Analysis.Png

open Monios.Library Monios.Model.Png Monios.Model.Crc32

def chunk (type data : List UInt8) : List UInt8 :=
  be32 data.length ++ (type ++ (data ++ be32 (crc32Buf (type ++ data)).toNat))

def row (rgb : Memory) (w k : Nat) : List UInt8 := load rgb (k * (w * 3)) (w * 3)

def scanlines (rgb : Memory) (w h : Nat) : List UInt8 :=
  (List.range h).flatMap fun k => 0 :: row rgb w k

def InflatesTo (payload bytes : List UInt8) : Prop :=
  ∀ src : Model.Zcomp.Buffer, src.val = payload → ∀ (dst : Memory) (cap : UInt32), bytes.length ≤ cap.toNat →
    ∃ dst', Model.Inflate.zlibInflate src dst cap = ((bytes.length : Int), dst') ∧ load dst' 0 bytes.length = bytes

def idat : Nat := 33

def headOf (out : Memory) (w h : Nat) (cap : Nat) : Memory :=
  (pngPutChunk 8 cap typeIhdr (.bytes (ihdr w h)) (store out 0 signature)).2

def scratch (out : Memory) (cap : Nat) (rgb : Memory) (w h : Nat) : List UInt8 :=
  let (mem, len) := buildIdat rgb w h idat (headOf out w h cap)
  load mem idat len

def Decodable (out : Memory) (cap : UInt32) (rgb : Memory) (w h : UInt32) : Prop :=
  ∃ payload, load (pngEncodeRgb out cap rgb w h).2 0 (pngEncodeRgb out cap rgb w h).1 =
      signature ++ (chunk typeIhdr (ihdr w.toNat h.toNat) ++ (chunk typeIdat payload ++ chunk typeIend [])) ∧
    payload = scratch out cap.toNat rgb w.toNat h.toNat ∧
    InflatesTo payload (scanlines rgb w.toNat h.toNat)

def rawSize (w h : Nat) : Nat := h * (1 + w * 3)

/-- The number of bytes of the payload: two of its own, the rows, five for each stored block, and
the checksum. -/
def payloadSize (w h : Nat) : Nat := 2 + rawSize w h + (rawSize w h + 65534) / 65535 * 5 + 4

def Fits (w h cap : Nat) : Prop := 8 + (12 + 13) + (12 + payloadSize w h) + 12 ≤ cap

section

variable {rgb : Memory} {w base take raw : Nat}

theorem fillFrom_spec (rounds filled : Nat) (e : Enc) (hw : 0 < w) (hle : filled ≤ take)
    (hrounds : take - filled ≤ rounds) :
    (fillFrom rgb w base take rounds filled e).outp = e.outp + (take - filled) ∧
      (fillFrom rgb w base take rounds filled e).rp = e.rp + (take - filled) ∧
      ∀ x, x < base + e.outp → (fillFrom rgb w base take rounds filled e).mem x = e.mem x := by
  induction rounds generalizing filled e with
  | zero =>
    rw [show take - filled = 0 by omega]
    exact ⟨rfl, rfl, fun _ _ => rfl⟩
  | succ rounds ih =>
    unfold fillFrom
    by_cases hmore : filled < take
    · rw [if_pos hmore]
      dsimp only
      by_cases hrow : e.rp % (1 + w * 3) = 0
      · rw [if_pos hrow]
        obtain ⟨houtp, hrp, hmem⟩ := ih (filled + 1) ⟨store e.mem (base + e.outp) [0], e.outp + 1, e.rp + 1⟩ (by omega) (by omega)
        refine ⟨by rw [houtp]; dsimp only; omega, by rw [hrp]; dsimp only; omega, fun x hx => ?_⟩
        rw [hmem x (by dsimp only; omega)]
        exact store_frame (Or.inl hx)
      · rw [if_neg hrow]
        have hlt := Nat.mod_lt e.rp (show 0 < 1 + w * 3 by omega)
        generalize hn : (if w * 3 - (e.rp % (1 + w * 3) - 1) < take - filled then w * 3 - (e.rp % (1 + w * 3) - 1)
          else take - filled) = nbytes
        have hnbytes : 0 < nbytes ∧ nbytes ≤ take - filled := by
          split at hn
          · omega
          · omega
        obtain ⟨houtp, hrp, hmem⟩ := ih (filled + nbytes) ⟨store e.mem (base + e.outp)
          (load rgb (e.rp / (1 + w * 3) * (w * 3) + (e.rp % (1 + w * 3) - 1)) nbytes), e.outp + nbytes, e.rp + nbytes⟩
          (by omega) (by omega)
        refine ⟨by rw [houtp]; dsimp only; omega, by rw [hrp]; dsimp only; omega, fun x hx => ?_⟩
        rw [hmem x (by dsimp only; omega)]
        exact store_frame (Or.inl hx)
    · rw [if_neg hmore, show take - filled = 0 by omega]
      exact ⟨rfl, rfl, fun _ _ => rfl⟩

theorem patchHeader_frame {hpos : Nat} {last : Bool} {mem : Memory} {x : Nat}
    (hx : x < base + hpos) :
    patchHeader base hpos take last mem x = mem x := by
  unfold patchHeader
  rw [store_frame (Or.inl (by omega)), store_frame (Or.inl (by omega)), store_frame (Or.inl hx)]

theorem patchHeader_length {hpos : Nat} {last : Bool} {mem : Memory} (htake : take ≤ 65535) :
    patchHeader base hpos take last mem (base + hpos + 2) = UInt8.ofNat take ∧
      patchHeader base hpos take last mem (base + hpos + 4) = UInt8.ofNat (65535 - take) := by
  unfold patchHeader be16
  refine ⟨?_, ?_⟩
  · rw [store_frame (Or.inl (by omega)), show base + hpos + 2 = base + hpos + 1 + 1 by omega,
      store_add Nat.one_lt_two]
    rfl
  · rw [show base + hpos + 4 = base + hpos + 3 + 1 by omega, store_add Nat.one_lt_two,
      show (2 ^ 32 - 1 - take) % 2 ^ 16 = 65535 - take by omega]
    rfl

theorem emitBlocks_spec (rounds : Nat) (e : Enc) (hw : 0 < w) (hle : e.rp ≤ raw)
    (hrounds : raw - e.rp ≤ rounds) :
    (emitBlocks rgb w base raw rounds e).outp = e.outp + (raw - e.rp) +
      (raw - e.rp + 65534) / 65535 * 5 ∧
      ∀ x, x < base + e.outp → (emitBlocks rgb w base raw rounds e).mem x = e.mem x := by
  induction rounds generalizing e with
  | zero =>
    rw [show raw - e.rp = 0 by omega]
    exact ⟨rfl, fun _ _ => rfl⟩
  | succ rounds ih =>
    unfold emitBlocks
    by_cases hmore : e.rp < raw
    · rw [if_pos hmore]
      dsimp only
      generalize htake : (if raw - e.rp > 65535 then 65535 else raw - e.rp) = take
      have hcases : (raw - e.rp > 65535 ∧ take = 65535) ∨ (raw - e.rp ≤ 65535 ∧ take = raw - e.rp) := by
        split at htake
        · exact Or.inl ⟨by assumption, htake.symm⟩
        · exact Or.inr ⟨by omega, htake.symm⟩
      obtain ⟨houtp, hrp, hmem⟩ := @fillFrom_spec rgb w base take take 0 { e with outp := e.outp + 5 } hw (Nat.zero_le _)
        (Nat.sub_le _ _)
      dsimp only at houtp hrp hmem
      obtain ⟨houtp', hmem'⟩ := ih { fillFrom rgb w base take take 0 { e with outp := e.outp + 5 } with
        mem := patchHeader base e.outp take ((fillFrom rgb w base take take 0 { e with outp := e.outp + 5 }).rp == raw)
          (fillFrom rgb w base take take 0 { e with outp := e.outp + 5 }).mem } (by dsimp only; omega) (by dsimp only; omega)
      dsimp only at houtp' hmem'
      refine ⟨by rw [houtp', houtp, hrp]; omega, fun x hx => ?_⟩
      rw [hmem' x (by omega), patchHeader_frame hx, hmem x (by omega)]
    · rw [if_neg hmore, show raw - e.rp = 0 by omega]
      exact ⟨rfl, fun _ _ => rfl⟩

theorem emitBlocks_header (rounds : Nat) (mem : Memory) (hw : 0 < w) (hraw : 0 < raw)
    (hrounds : raw ≤ rounds) :
    ∃ take, take ≤ 65535 ∧ (emitBlocks rgb w base raw rounds ⟨mem, 2, 0⟩).mem (base + 4) = UInt8.ofNat take ∧
      (emitBlocks rgb w base raw rounds ⟨mem, 2, 0⟩).mem (base + 6) =
      UInt8.ofNat (65535 - take) := by
  obtain ⟨rounds, rfl⟩ := Nat.exists_eq_succ_of_ne_zero (Nat.ne_of_gt (Nat.lt_of_lt_of_le hraw hrounds))
  unfold emitBlocks
  rw [if_pos hraw]
  dsimp only
  generalize htake : (if raw - 0 > 65535 then 65535 else raw - 0) = take
  have hle : take ≤ 65535 ∧ take ≤ raw ∧ 0 < take := by
    split at htake
    · omega
    · omega
  obtain ⟨houtp, hrp, -⟩ := @fillFrom_spec rgb w base take take 0 ⟨mem, 2 + 5, 0⟩ hw (Nat.zero_le _) (Nat.sub_le _ _)
  dsimp only at houtp hrp
  obtain ⟨-, hmem⟩ := @emitBlocks_spec rgb w base raw rounds { fillFrom rgb w base take take 0 ⟨mem, 2 + 5, 0⟩ with
    mem := patchHeader base 2 take ((fillFrom rgb w base take take 0 ⟨mem, 2 + 5, 0⟩).rp == raw)
      (fillFrom rgb w base take take 0 ⟨mem, 2 + 5, 0⟩).mem } hw (by dsimp only; omega) (by dsimp only; omega)
  dsimp only at hmem
  obtain ⟨hlow, hcomplement⟩ := @patchHeader_length base take 2
    ((fillFrom rgb w base take take 0 ⟨mem, 2 + 5, 0⟩).rp == raw) (fillFrom rgb w base take take 0 ⟨mem, 2 + 5, 0⟩).mem hle.1
  refine ⟨take, hle.1, ?_, ?_⟩
  · rw [hmem _ (by omega)]
    exact hlow
  · rw [hmem _ (by omega)]
    exact hcomplement

end

section

variable {offset cap : Nat} {type : List UInt8} {data : ChunkData} {mem : Memory}

def chunkMemory (offset : Nat) (type : List UInt8) (data : ChunkData) (mem : Memory) : Memory :=
  (pngPutChunk offset (offset + 12 + data.len) type data mem).2

theorem pngPutChunk_of_fits (hcap : cap < 2 ^ 32) (h : offset + 12 + data.len ≤ cap) :
    pngPutChunk offset cap type data mem =
      (offset + 12 + data.len, chunkMemory offset type data mem) := by
  have hmod : (offset + 12 + data.len) % 2 ^ 32 = offset + 12 + data.len :=
    Nat.mod_eq_of_lt (by omega)
  unfold chunkMemory pngPutChunk
  rw [hmod, if_neg (by omega), if_neg (by omega)]

theorem chunkMemory_frame {x : Nat} (hcap : offset + 12 + data.len < 2 ^ 32) (hx : x < offset) :
    chunkMemory offset type data mem x = mem x := by
  unfold chunkMemory pngPutChunk
  rw [Nat.mod_eq_of_lt hcap, if_neg (Nat.lt_irrefl _)]
  dsimp only
  rw [store_frame (Or.inl (by omega))]
  cases data with
  | bytes data =>
    rw [ChunkData.copyTo, store_frame (Or.inl (by omega)), store_frame (Or.inl (by omega)),
      store_frame (Or.inl hx)]
  | inBuffer addr len =>
    rw [ChunkData.copyTo, copyBytes_frame _ _ _ (Or.inl (by omega)),
      store_frame (Or.inl (by omega)), store_frame (Or.inl hx)]

theorem chunkMemory_inBuffer {len k : Nat} (hcap : offset + 12 + len < 2 ^ 32)
    (htype : type.length = 4) (hk : k < len) (hfour : 4 ≤ k % 8) :
    chunkMemory offset type (.inBuffer offset len) mem (offset + 8 + k) =
      type.getD (k % 8 - 4) 0 := by
  have hmod := Nat.mod_lt k (show 0 < 8 by omega)
  unfold chunkMemory pngPutChunk ChunkData.len
  rw [Nat.mod_eq_of_lt hcap, if_neg (Nat.lt_irrefl _)]
  dsimp only
  rw [store_frame (Or.inl (by omega))]
  rw [ChunkData.copyTo, copyBytes_overlap (show 0 < 8 by omega) rfl _ hk,
    show offset + k % 8 = offset + 4 + (k % 8 - 4) by omega,
    store_add (by omega)]

end

section

variable {out rgb : Memory} {w h cap : UInt32}

theorem rawSize_pos (hh : 0 < h.toNat) : 0 < rawSize w.toNat h.toNat :=
  Nat.mul_pos hh (Nat.lt_of_lt_of_le Nat.one_pos (Nat.le_add_right 1 _))

theorem rawLen_eq (hfits : Fits w.toNat h.toNat cap.toNat) :
    rawLen w.toNat h.toNat = rawSize w.toNat h.toNat := by
  have hcap := cap.toNat_lt
  unfold Fits payloadSize at hfits
  exact Nat.mod_eq_of_lt (show rawSize w.toNat h.toNat < 2 ^ 32 by omega)

theorem buildIdat_spec {mem : Memory} (hw : 0 < w.toNat) (hh : 0 < h.toNat)
    (hfits : Fits w.toNat h.toNat cap.toNat) :
    (buildIdat rgb w.toNat h.toNat idat mem).2 = payloadSize w.toNat h.toNat ∧
      ∃ take, take ≤ 65535 ∧ (buildIdat rgb w.toNat h.toNat idat mem).1 (idat + 4) = UInt8.ofNat take ∧
        (buildIdat rgb w.toNat h.toNat idat mem).1 (idat + 6) = UInt8.ofNat (65535 - take) := by
  have hpos := @rawSize_pos w h hh
  obtain ⟨take, htake, hlow, hcomplement⟩ :=
    @emitBlocks_header rgb w.toNat idat (rawSize w.toNat h.toNat)
    (rawSize w.toNat h.toNat) (store mem idat [0x78, 0x01]) hw hpos (Nat.le_refl _)
  obtain ⟨houtp, -⟩ := @emitBlocks_spec rgb w.toNat idat (rawSize w.toNat h.toNat) (rawSize w.toNat h.toNat)
    ⟨store mem idat [0x78, 0x01], 2, 0⟩ hw (Nat.zero_le _) (Nat.sub_le _ _)
  unfold buildIdat
  rw [rawLen_eq hfits]
  dsimp only at houtp ⊢
  rw [houtp]
  refine ⟨by unfold payloadSize; rw [Nat.sub_zero], take, htake, ?_, ?_⟩
  · rw [store_frame (Or.inl (by omega))]
    exact hlow
  · rw [store_frame (Or.inl (by omega))]
    exact hcomplement

theorem pngEncodeRgb_of_fits (hw : 0 < w) (hh : 0 < h) (hfits : Fits w.toNat h.toNat cap.toNat) :
    pngEncodeRgb out cap rgb w h = (idat + 12 + payloadSize w.toNat h.toNat + 12,
        chunkMemory (idat + 12 + payloadSize w.toNat h.toNat) typeIend (.bytes [])
          (chunkMemory idat typeIdat (.inBuffer idat (payloadSize w.toNat h.toNat))
            (buildIdat rgb w.toNat h.toNat idat (headOf out w.toNat h.toNat cap.toNat)).1)) := by
  have hcap := cap.toNat_lt
  have hwNat : 0 < w.toNat := hw
  have hhNat : 0 < h.toNat := hh
  have hzero : ¬(w = 0 ∨ h = 0) := by
    rintro (rfl | rfl)
    · exact absurd hwNat (Nat.lt_irrefl 0)
    · exact absurd hhNat (Nat.lt_irrefl 0)
  obtain ⟨hlen, -⟩ := @buildIdat_spec rgb w h cap (headOf out w.toNat h.toNat cap.toNat) hwNat hhNat hfits
  have hihdr : pngPutChunk 8 cap.toNat typeIhdr (.bytes (ihdr w.toNat h.toNat)) (store out 0 signature) =
      (idat, headOf out w.toNat h.toNat cap.toNat) := by
    unfold Fits at hfits
    unfold headOf
    rw [pngPutChunk_of_fits hcap (show 8 + 12 + 13 ≤ cap.toNat by omega)]
    rfl
  have hidat : pngPutChunk idat cap.toNat typeIdat (.inBuffer idat (payloadSize w.toNat h.toNat))
      (buildIdat rgb w.toNat h.toNat idat (headOf out w.toNat h.toNat cap.toNat)).1 =
      (idat + 12 + payloadSize w.toNat h.toNat, chunkMemory idat typeIdat (.inBuffer idat (payloadSize w.toNat h.toNat))
        (buildIdat rgb w.toNat h.toNat idat (headOf out w.toNat h.toNat cap.toNat)).1) := by
    unfold Fits at hfits
    exact pngPutChunk_of_fits hcap (show 33 + 12 + payloadSize w.toNat h.toNat ≤ cap.toNat by omega)
  have hiend (mem : Memory) : pngPutChunk (idat + 12 + payloadSize w.toNat h.toNat) cap.toNat typeIend (.bytes []) mem =
      (idat + 12 + payloadSize w.toNat h.toNat + 12,
        chunkMemory (idat + 12 + payloadSize w.toNat h.toNat) typeIend (.bytes []) mem) := by
    unfold Fits at hfits
    exact pngPutChunk_of_fits hcap (show 33 + 12 + payloadSize w.toNat h.toNat + 12 + 0 ≤ cap.toNat by omega)
  have hroom : ¬(8 + 12 + 13 + idatCap w.toNat h.toNat + 12) % 2 ^ 32 > cap.toNat := by
    have hblocks : rawSize w.toNat h.toNat / 65535 ≤ (rawSize w.toNat h.toNat + 65534) / 65535 :=
      Nat.div_le_div_right (Nat.le_add_right _ _)
    unfold idatCap
    rw [rawLen_eq hfits]
    unfold Fits payloadSize at hfits
    rw [Nat.mod_eq_of_lt (show 2 + rawSize w.toNat h.toNat + (rawSize w.toNat h.toNat / 65535 + 1) * 5 + 4 < 2 ^ 32 by omega),
      Nat.mod_eq_of_lt (by omega)]
    omega
  unfold pngEncodeRgb
  rw [if_neg hzero, if_neg hroom]
  dsimp only
  rw [hihdr]
  dsimp only
  rw [if_neg (by decide), hlen, hidat]
  dsimp only
  rw [if_neg (by unfold idat; omega), hiend]

theorem getElem?_payload {ihdr payload rest : List UInt8} {k : Nat} (hihdr : ihdr.length = 13)
    (hk : k < payload.length) :
    (signature ++ (chunk typeIhdr ihdr ++ (chunk typeIdat payload ++ rest)))[41 + k]? =
      payload[k]? := by
  have hsplit : signature ++ (chunk typeIhdr ihdr ++ (chunk typeIdat payload ++ rest)) =
      (signature ++ (chunk typeIhdr ihdr ++ (be32 payload.length ++ typeIdat))) ++
        (payload ++ (be32 (crc32Buf (typeIdat ++ payload)).toNat ++ rest)) := by
    simp only [chunk, List.append_assoc]
  have hlength : (signature ++ (chunk typeIhdr ihdr ++ (be32 payload.length ++ typeIdat))).length =
      41 := by
    simp [chunk, be32, signature, typeIhdr, typeIdat, hihdr]
  rw [hsplit, List.getElem?_append_right (by omega), hlength, Nat.add_sub_cancel_left,
    List.getElem?_append_left hk]

theorem pngEncodeRgb_ne_zero (hw : 0 < w) (hh : 0 < h) (hfits : Fits w.toNat h.toNat cap.toNat) :
    (pngEncodeRgb out cap rgb w h).1 ≠ 0 := by
  rw [pngEncodeRgb_of_fits hw hh hfits]
  exact Nat.succ_ne_zero _

theorem payload_ne_scratch {payload : List UInt8} (hw : 0 < w) (hh : 0 < h)
    (hfits : Fits w.toNat h.toNat cap.toNat)
    (hload : load (pngEncodeRgb out cap rgb w h).2 0 (pngEncodeRgb out cap rgb w h).1 =
      signature ++ (chunk typeIhdr (ihdr w.toNat h.toNat) ++ (chunk typeIdat payload ++ chunk typeIend []))) :
    payload ≠ scratch out cap.toNat rgb w.toNat h.toNat := by
  rintro rfl
  have hcap := cap.toNat_lt
  obtain ⟨hlen, take, htake, hlow, hcomplement⟩ :=
    @buildIdat_spec rgb w h cap (headOf out w.toNat h.toNat cap.toNat) hw hh hfits
  have hseven : 7 < payloadSize w.toNat h.toNat := by
    have := @rawSize_pos w h hh
    unfold payloadSize
    omega
  rw [pngEncodeRgb_of_fits hw hh hfits] at hload
  dsimp only at hload
  unfold Fits at hfits
  have hidat : idat = 33 := rfl
  have hempty : (ChunkData.bytes []).len = 0 := rfl
  -- the payload is found behind the header of its chunk, which is what the copy repeats there
  have hfound (k : Nat) (hk : k < 8) (hfour : 4 ≤ k) :
      (buildIdat rgb w.toNat h.toNat idat (headOf out w.toNat h.toNat cap.toNat)).1 (idat + k) = typeIdat.getD (k - 4) 0 := by
    have hscratch : (scratch out cap.toNat rgb w.toNat h.toNat)[k]? =
        some ((buildIdat rgb w.toNat h.toNat idat (headOf out w.toNat h.toNat cap.toNat)).1 (idat + k)) :=
      getElem?_load _ _ (show k < (buildIdat rgb w.toNat h.toNat idat _).2 by rw [hlen]; omega)
    have hlength : k < (scratch out cap.toNat rgb w.toNat h.toNat).length := by
      obtain ⟨hlt, -⟩ := List.getElem?_eq_some_iff.mp hscratch
      exact hlt
    have hcopied (mem : Memory) : chunkMemory idat typeIdat (.inBuffer idat (payloadSize w.toNat h.toNat)) mem (41 + k) =
        typeIdat.getD (k - 4) 0 := by
      rw [show 41 + k = idat + 8 + k by omega, chunkMemory_inBuffer (by omega) rfl (by omega) (by omega), Nat.mod_eq_of_lt hk]
    have hget := congrArg (fun bytes => bytes[41 + k]?) hload
    rw [getElem?_load _ _ (by omega), Nat.zero_add, chunkMemory_frame (by rw [hempty]; omega) (by omega), hcopied,
      getElem?_payload rfl hlength, hscratch] at hget
    exact (Option.some.inj hget).symm
  have hI : UInt8.ofNat take = 73 := hlow.symm.trans (hfound 4 (by omega) (by omega))
  have hA : UInt8.ofNat (65535 - take) = 65 :=
    hcomplement.symm.trans (hfound 6 (by omega) (by omega))
  have hlowByte : take % 256 = 73 := congrArg UInt8.toNat hI
  have hcomplementByte : (65535 - take) % 256 = 65 := congrArg UInt8.toNat hA
  omega

theorem not_decodable (out rgb : Memory) (cap w h : UInt32) (hw : 0 < w) (hh : 0 < h)
    (hfits : Fits w.toNat h.toNat cap.toNat) :
    (pngEncodeRgb out cap rgb w h).1 ≠ 0 ∧ ¬Decodable out cap rgb w h := by
  constructor
  · exact pngEncodeRgb_ne_zero hw hh hfits
  · rintro ⟨payload, hload, hscratch, -⟩
    exact payload_ne_scratch hw hh hfits hload hscratch

def black : Memory := fun _ => 0

theorem not_decodable_pixel : (pngEncodeRgb black 100 black 1 1).1 ≠ 0 ∧ ¬Decodable black 100 black 1 1 :=
  not_decodable black black 100 1 1 (by decide) (by decide) (by unfold Fits payloadSize rawSize; decide)

theorem not_decodable_always :
    ¬∀ (out rgb : Memory) (cap w h : UInt32), 0 < w → 0 < h → Fits w.toNat h.toNat cap.toNat →
    (pngEncodeRgb out cap rgb w h).1 ≠ 0 → Decodable out cap rgb w h := by
  intro hall
  have hfits : Fits (1 : UInt32).toNat (1 : UInt32).toNat (100 : UInt32).toNat := by
    unfold Fits payloadSize rawSize
    decide
  obtain ⟨payload, hload, hscratch, -⟩ := hall black black 100 1 1 (by decide) (by decide) hfits
    (pngEncodeRgb_ne_zero (by decide) (by decide) hfits)
  exact payload_ne_scratch (by decide) (by decide) hfits hload hscratch

end

end Monios.Analysis.Png
