import Monios.Model.PeImage

/-!
# What a signature says about the code that is loaded

The digest of an image leaves out the checksum, the security directory entry and the certificate
table. The entry says where the table is, and only its lower end is bounded: the table must start
behind the entry.
-/

set_option autoImplicit false

namespace Monios.Analysis.SignedImage

open Monios.Library Monios.Model

def InCertTable (l : CertLayout) (x : Nat) : Prop :=
  l.certOffset ≤ x ∧ x < l.certOffset + l.certSize

def Collide (P : CmsPrimitives) (d e : List UInt8) : Prop := d ≠ e ∧ P.sha256 d = P.sha256 e

/-- If the image is accepted, its certificate table holds nothing the loader uses, and
every other image that is accepted with the same signature and differs in a byte the
loader uses is a collision. -/
def SignedCodeIsLoaded (P : CmsPrimitives) (image : List UInt8) : Prop :=
  ∀ l signer, authenticodeLayout image = some l → authenticodeVerifyPe P image = some signer →
    (∀ x, LoaderUses image x → ¬ InCertTable l x) ∧
    ∀ other m, other.length < 2 ^ 32 → authenticodeLayout other = some m → authenticodeVerifyPe P other = some signer →
      authenticodeCms other m = authenticodeCms image l →
      (∃ x, LoaderUses image x ∧ other.getD x 0 ≠ image.getD x 0) →
      Collide P (authenticodeDigestInput image l) (authenticodeDigestInput other m)

section

variable {image : List UInt8} {oo : Nat} {l : CertLayout}

/-- What `authenticode_optional_offset` asks of an image. -/
theorem optionalOffset_eq_some_iff : authenticodeOptionalOffset image = some oo ↔
      oo = readU32 image 0x3C + 24 ∧ 0x100 ≤ image.length ∧ readU16 image 0 = 0x5A4D ∧
      readU32 image (readU32 image 0x3C) = 0x00004550 ∧
      152 ≤ readU16 image (readU32 image 0x3C + 20) ∧
      oo + readU16 image (readU32 image 0x3C + 20) ≤ image.length ∧
      readU16 image oo = 0x20B ∧ 4 < readU32 image (oo + 108) := by
  unfold authenticodeOptionalOffset
  dsimp only
  constructor
  · intro h
    split at h
    · cases h
    · split at h
      · cases h
      · split at h
        · cases h
        · split at h
          · cases h
          · simp only [Option.some.injEq] at h
            subst h
            omega
  · rintro ⟨rfl, h1, h2, h3, h4, h5, h6, h7⟩
    rw [if_neg (by omega), if_neg (by omega), if_neg (by omega), if_neg (by omega)]

/-- What the layout of the certificate table asks of an image. -/
theorem certLayout_eq_some_iff : authenticodeCertLayout image oo = some l ↔
      l.optionalOffset = oo ∧ l.securityDirOffset = oo + 144 ∧
      l.certOffset = readU32 image (oo + 144) ∧ l.certSize = readU32 image (oo + 144 + 4) ∧
      l.certLength = readU32 image l.certOffset ∧ oo + 152 ≤ l.certOffset ∧
      l.certOffset + l.certSize ≤ image.length ∧ 8 ≤ l.certLength ∧ l.certLength ≤ l.certSize ∧
      (readU16 image (l.certOffset + 4) = 0x0100 ∨ readU16 image (l.certOffset + 4) = 0x0200) ∧
      readU16 image (l.certOffset + 6) = 0x0002 ∧ l.certLength ≤ 256 * 1024 + 8 := by
  unfold authenticodeCertLayout
  dsimp only
  constructor
  · intro h
    split at h
    · cases h
    · split at h
      · cases h
      · simp only [Option.some.injEq] at h
        subst h
        dsimp only
        omega
  · obtain ⟨a, b, c, d, e⟩ := l
    dsimp only
    rintro ⟨rfl, rfl, rfl, rfl, rfl, h1, h2, h3, h4, h5, h6, h7⟩
    rw [if_neg (by omega), if_neg (by omega)]

/-- The layout is that of the header and that of the certificate table. -/
theorem layout_eq_some_iff : authenticodeLayout image = some l ↔
      authenticodeOptionalOffset image = some l.optionalOffset ∧
      authenticodeCertLayout image l.optionalOffset = some l := by
  unfold authenticodeLayout
  rw [Option.bind_eq_some_iff]
  constructor
  · rintro ⟨oo, h1, h2⟩
    have hoo := (certLayout_eq_some_iff.mp h2).1
    rw [hoo]
    exact ⟨h1, h2⟩
  · rintro ⟨h1, h2⟩
    exact ⟨_, h1, h2⟩

/-- The header's offset depends on the bytes in front of the certificate entry only. -/
theorem optionalOffset_congr {other : List UInt8} (h : authenticodeOptionalOffset image = some oo)
    (hagree : ∀ i, i < oo + 144 → other.getD i 0 = image.getD i 0) (hsize : 0x100 ≤ other.length)
    (hfit : oo + readU16 image (readU32 image 0x3C + 20) ≤ other.length) :
    authenticodeOptionalOffset other = some oo := by
  rw [optionalOffset_eq_some_iff] at h ⊢
  obtain ⟨h0, -, h2, h3, h4, -, h6, h7⟩ := h
  have hpe : readU32 other 0x3C = readU32 image 0x3C :=
    readU32_congr fun i _ hi => hagree i (by omega)
  have hopt : readU16 other (readU32 image 0x3C + 20) = readU16 image (readU32 image 0x3C + 20) :=
    readU16_congr fun i _ hi => hagree i (by omega)
  rw [hpe, hopt]
  refine ⟨h0, hsize, ?_, ?_, h4, hfit, ?_, ?_⟩
  · rw [← h2]
    exact readU16_congr fun i _ hi => hagree i (by omega)
  · rw [← h3]
    exact readU32_congr fun i _ hi => hagree i (by omega)
  · rw [← h6]
    exact readU16_congr fun i _ hi => hagree i (by omega)
  · rw [readU32_congr (e := image) fun i _ hi => hagree i (by omega)]
    exact h7

end

section

variable (image : List UInt8) (l : CertLayout) (k : Nat) (table : List UInt8)

def signedTail : List UInt8 :=
  slice image (l.securityDirOffset + 8) (l.certOffset - l.securityDirOffset - 8) ++
    image.drop (l.certOffset + l.certSize)

def forgeFront : List UInt8 :=
  image.take l.securityDirOffset ++ (le32 k ++ (le32 table.length ++
    (signedTail image l).take (k - (l.securityDirOffset + 8))))

def forge : List UInt8 :=
  forgeFront image l k table ++ (table ++ (signedTail image l).drop (k - (l.securityDirOffset + 8)))

def forgedLayout : CertLayout :=
  { l with certOffset := k, certSize := table.length }

end

section

variable {image : List UInt8} {l : CertLayout} {k : Nat} (table : List UInt8)

/-- A forged image, part by part. -/
theorem forge_eq (image : List UInt8) (l : CertLayout) (k : Nat) (table : List UInt8) :
    forge image l k table = image.take l.securityDirOffset ++ (le32 k ++ (le32 table.length ++
      ((signedTail image l).take (k - (l.securityDirOffset + 8)) ++
        (table ++ (signedTail image l).drop (k - (l.securityDirOffset + 8)))))) := by
  unfold forge forgeFront
  simp only [List.append_assoc]

/-- The parts of an image lie one behind the other. -/
theorem layout_bounds (hl : authenticodeLayout image = some l) :
    l.optionalOffset + 144 = l.securityDirOffset ∧ l.securityDirOffset + 8 ≤ l.certOffset ∧
      l.certOffset + l.certSize ≤ image.length := by
  obtain ⟨-, h⟩ := layout_eq_some_iff.mp hl
  rw [certLayout_eq_some_iff] at h
  omega

/-- What is signed behind the certificate entry, counted. -/
theorem length_signedTail (hl : authenticodeLayout image = some l) :
    l.securityDirOffset + 8 + (signedTail image l).length + l.certSize = image.length := by
  obtain ⟨-, h2, h3⟩ := layout_bounds hl
  unfold signedTail slice
  simp only [List.length_append, List.length_take, List.length_drop]
  omega

/-- The front of a forged image, counted. -/
theorem length_forgeFront (hl : authenticodeLayout image = some l)
    (hk : l.securityDirOffset + 8 ≤ k) (hk' : k + l.certSize ≤ image.length) :
    (forgeFront image l k table).length = k := by
  have htail := length_signedTail hl
  have hb := layout_bounds hl
  unfold forgeFront
  simp only [List.length_append, List.length_take, length_le32]
  omega

/-- A forged image, counted. -/
theorem length_forge (hl : authenticodeLayout image = some l)
    (hk : l.securityDirOffset + 8 ≤ k) (hk' : k + l.certSize ≤ image.length) :
    (forge image l k table).length + l.certSize = image.length + table.length := by
  have htail := length_signedTail hl
  have hfront := length_forgeFront table hl hk hk'
  unfold forge
  simp only [List.length_append, List.length_drop, hfront]
  omega

/-- A forged image keeps the bytes in front of the certificate entry. -/
theorem forge_getD_head (hl : authenticodeLayout image = some l) {i : Nat}
    (hi : i < l.securityDirOffset) : (forge image l k table).getD i 0 = image.getD i 0 := by
  have hb := layout_bounds hl
  rw [forge_eq, List.getD_append _ _ _ _ (by rw [List.length_take]; omega)]
  simp only [List.getD_eq_getElem?_getD, List.getElem?_take, if_pos hi]

/-- The bytes in front of the certificate entry, counted. -/
theorem length_take_securityDir (hl : authenticodeLayout image = some l) :
    (image.take l.securityDirOffset).length = l.securityDirOffset := by
  have hb := layout_bounds hl
  rw [List.length_take]
  omega

/-- The table of a forged image lies where it was put. -/
theorem forge_certOffset (hl : authenticodeLayout image = some l) (hk : k < 2 ^ 32) :
    readU32 (forge image l k table) l.securityDirOffset = k := by
  have h := readU32_append (image.take l.securityDirOffset) (le32 k ++ (le32 table.length ++
      ((signedTail image l).take (k - (l.securityDirOffset + 8)) ++
        (table ++ (signedTail image l).drop (k - (l.securityDirOffset + 8)))))) 0
  rw [length_take_securityDir hl, Nat.add_zero l.securityDirOffset] at h
  rw [forge_eq, h]
  exact readU32_le32 hk _

/-- The table of a forged image has the size it was given. -/
theorem forge_certSize (hl : authenticodeLayout image = some l) (htable : table.length < 2 ^ 32) :
    readU32 (forge image l k table) (l.securityDirOffset + 4) = table.length := by
  have h := readU32_append (image.take l.securityDirOffset) (le32 k ++ (le32 table.length ++
      ((signedTail image l).take (k - (l.securityDirOffset + 8)) ++
        (table ++ (signedTail image l).drop (k - (l.securityDirOffset + 8)))))) 4
  rw [length_take_securityDir hl] at h
  rw [forge_eq, h]
  have h' := readU32_append (le32 k) (le32 table.length ++ ((signedTail image l).take (k - (l.securityDirOffset + 8)) ++
        (table ++ (signedTail image l).drop (k - (l.securityDirOffset + 8))))) 0
  rw [length_le32, Nat.add_zero] at h'
  rw [h']
  exact readU32_le32 htable _

section

variable (hl : authenticodeLayout image = some l) (hk : l.securityDirOffset + 8 ≤ k)
  (hk' : k + l.certSize ≤ image.length)

include hl hk hk'

/-- The table is read back, byte by byte. -/
theorem forge_getD_table {o : Nat} (ho : o < table.length) :
    (forge image l k table).getD (k + o) 0 = table.getD o 0 := by
  have hfront := length_forgeFront table hl hk hk'
  have h := getD_append_add (forgeFront image l k table)
    (table ++ (signedTail image l).drop (k - (l.securityDirOffset + 8))) o
  rw [hfront] at h
  unfold forge
  rw [h, List.getD_append _ _ _ _ ho]

/-- The table is read back, word by word. -/
theorem forge_readU32_table {o : Nat} (ho : o + 4 ≤ table.length) :
    readU32 (forge image l k table) (k + o) = readU32 table o := by
  have hfront := length_forgeFront table hl hk hk'
  have h := readU32_append (forgeFront image l k table)
    (table ++ (signedTail image l).drop (k - (l.securityDirOffset + 8))) o
  rw [hfront] at h
  unfold forge
  rw [h]
  exact readU32_congr fun i _ hi => List.getD_append _ _ _ _ (by omega)

/-- The table is read back, half-word by half-word. -/
theorem forge_readU16_table {o : Nat} (ho : o + 2 ≤ table.length) :
    readU16 (forge image l k table) (k + o) = readU16 table o := by
  have hfront := length_forgeFront table hl hk hk'
  have h := readU16_append (forgeFront image l k table)
    (table ++ (signedTail image l).drop (k - (l.securityDirOffset + 8))) o
  rw [hfront] at h
  unfold forge
  rw [h]
  exact readU16_congr fun i _ hi => List.getD_append _ _ _ _ (by omega)

/-- The signature of a forged image is the one in the table. -/
theorem forge_cms (hlen : l.certLength ≤ table.length) :
    authenticodeCms (forge image l k table) (forgedLayout l k table) =
      slice table 8 (l.certLength - 8) := by
  have hfront := length_forgeFront table hl hk hk'
  have hdrop : (forge image l k table).drop (k + 8) =
      (table ++ (signedTail image l).drop (k - (l.securityDirOffset + 8))).drop 8 := by
    unfold forge
    rw [← List.drop_drop, List.drop_left' hfront]
  unfold authenticodeCms slice forgedLayout
  dsimp only
  rw [hdrop]
  by_cases h8 : table.length < 8
  · have h0 : l.certLength - 8 = 0 := by omega
    rw [h0, List.take_zero, List.take_zero]
  · rw [List.drop_append_of_le_length (by omega), List.take_append_of_le_length]
    rw [List.length_drop]
    omega

/-- A forged image hashes the bytes the original does. -/
theorem forge_digestInput : authenticodeDigestInput (forge image l k table) (forgedLayout l k table) =
      authenticodeDigestInput image l := by
  have hb := layout_bounds hl
  have hfront := length_forgeFront table hl hk hk'
  have hsd := length_take_securityDir hl
  have htail := length_signedTail hl
  have hhead : (forge image l k table).take (l.optionalOffset + 64) =
      image.take (l.optionalOffset + 64) := by
    rw [forge_eq, List.take_append_of_le_length (by omega), List.take_take,
      Nat.min_eq_left (by omega)]
  have hmiddle : slice (forge image l k table) (l.optionalOffset + 64 + 4)
        (l.securityDirOffset - (l.optionalOffset + 64) - 4) =
      slice image (l.optionalOffset + 64 + 4)
        (l.securityDirOffset - (l.optionalOffset + 64) - 4) := by
    rw [forge_eq, slice_append_left _ (by omega), slice_take (by omega)]
  have hbefore : slice (forge image l k table) (l.securityDirOffset + 8) (k - l.securityDirOffset - 8) =
      (signedTail image l).take (k - (l.securityDirOffset + 8)) := by
    have h := slice_append_right (image.take l.securityDirOffset ++ (le32 k ++ le32 table.length))
      ((signedTail image l).take (k - (l.securityDirOffset + 8)) ++
        (table ++ (signedTail image l).drop (k - (l.securityDirOffset + 8)))) 0
      (k - l.securityDirOffset - 8)
    simp only [List.append_assoc, List.length_append, hsd, length_le32, Nat.add_zero] at h
    rw [forge_eq, h, slice_append_left _ (by rw [List.length_take]; omega)]
    unfold slice
    rw [List.drop_zero, List.take_take, Nat.min_eq_left (by omega)]
    congr 1
  have hafter : (forge image l k table).drop (k + table.length) =
      (signedTail image l).drop (k - (l.securityDirOffset + 8)) := by
    unfold forge
    rw [← List.drop_drop, List.drop_left' hfront, List.drop_left]
  unfold authenticodeDigestInput forgedLayout
  dsimp only
  rw [hhead, hmiddle, hbefore, hafter, List.append_assoc _ (List.take _ _), List.take_append_drop]
  unfold signedTail
  simp only [List.append_assoc]

/-- A forged image has the layout it was made for. -/
theorem forge_layout (hsize : 0x100 ≤ (forge image l k table).length)
    (hfit : l.optionalOffset + readU16 image (readU32 image 0x3C + 20) ≤
      (forge image l k table).length)
    (h32 : (forge image l k table).length < 2 ^ 32) (hlen : l.certLength ≤ table.length)
    (hlength : readU32 table 0 = l.certLength)
    (hrevision : readU16 table 4 = 0x0100 ∨ readU16 table 4 = 0x0200)
    (htype : readU16 table 6 = 0x0002) :
    authenticodeLayout (forge image l k table) = some (forgedLayout l k table) := by
  have hb := layout_bounds hl
  have hsum := length_forge table hl hk hk'
  have hfront := length_forgeFront table hl hk hk'
  obtain ⟨hopt, hcert⟩ := layout_eq_some_iff.mp hl
  rw [certLayout_eq_some_iff] at hcert
  obtain ⟨-, -, -, -, -, -, -, h8, -, -, -, hmax⟩ := hcert
  rw [layout_eq_some_iff]
  refine ⟨?_, ?_⟩
  · apply optionalOffset_congr hopt _ hsize hfit
    intro i hi
    exact forge_getD_head table hl (by omega)
  · rw [certLayout_eq_some_iff]
    unfold forgedLayout
    dsimp only
    have hoff := forge_certOffset table hl (k := k) (by omega)
    have hsz := forge_certSize table (k := k) hl (by omega)
    have hL := forge_readU32_table table hl hk hk' (o := 0) (by omega)
    have hR := forge_readU16_table table hl hk hk' (o := 4) (by omega)
    have hT := forge_readU16_table table hl hk hk' (o := 6) (by omega)
    rw [Nat.add_zero] at hL
    rw [hb.1, hoff, hsz, hL, hR, hT]
    refine ⟨rfl, rfl, rfl, rfl, hlength.symm, by omega, by omega, h8, hlen, hrevision, htype, hmax⟩

end

/-- A forged image is accepted with the same signer. -/
theorem forge_accepted {P : CmsPrimitives} {signer : List UInt8}
    (hl : authenticodeLayout image = some l) (hacc : authenticodeVerifyPe P image = some signer)
    (hk : l.securityDirOffset + 8 ≤ k) (hk' : k + l.certSize ≤ image.length)
    (hlayout : authenticodeLayout (forge image l k table) = some (forgedLayout l k table))
    (hlen : l.certLength ≤ table.length)
    (hcms : slice table 8 (l.certLength - 8) = authenticodeCms image l) :
    authenticodeVerifyPe P (forge image l k table) = some signer ∧
      authenticodeCms (forge image l k table) (forgedLayout l k table) =
      authenticodeCms image l := by
  have hsame := forge_cms table hl hk hk' hlen
  rw [hcms] at hsame
  refine ⟨?_, hsame⟩
  unfold authenticodeVerifyPe at hacc ⊢
  rw [hl] at hacc
  rw [hlayout]
  dsimp only at hacc ⊢
  rw [hsame, forge_digestInput table hl hk hk']
  exact hacc

end

section

def revisedTable (image : List UInt8) (l : CertLayout) (r : UInt8) (pad : List UInt8) :
    List UInt8 :=
  (slice image l.certOffset l.certLength).set 5 r ++ pad

variable {image : List UInt8} {l : CertLayout} (hl : authenticodeLayout image = some l) (r : UInt8) (pad : List UInt8)

include hl

/-- The certificate, counted. -/
theorem length_certificate : (slice image l.certOffset l.certLength).length = l.certLength := by
  obtain ⟨-, hcert⟩ := layout_eq_some_iff.mp hl
  rw [certLayout_eq_some_iff] at hcert
  unfold slice
  rw [List.length_take, List.length_drop]
  omega

/-- The revised table, counted. -/
theorem length_revisedTable : (revisedTable image l r pad).length = l.certLength + pad.length := by
  unfold revisedTable
  rw [List.length_append, List.length_set, length_certificate hl]

/-- The revised table keeps all bytes but the revision. -/
theorem revisedTable_getD {i : Nat} (hi : i < l.certLength) (h5 : i ≠ 5) :
    (revisedTable image l r pad).getD i 0 = image.getD (l.certOffset + i) 0 := by
  have hlen := length_certificate hl
  unfold revisedTable
  rw [List.getD_append _ _ _ _ (by rw [List.length_set]; omega)]
  simp only [List.getD_eq_getElem?_getD, List.getElem?_set_ne (Ne.symm h5)]
  unfold slice
  rw [List.getElem?_take, if_pos hi, List.getElem?_drop]

/-- The revision is the one it was given. -/
theorem revisedTable_getD_revision (h8 : 8 ≤ l.certLength) :
    (revisedTable image l r pad).getD 5 0 = r := by
  have hlen := length_certificate hl
  unfold revisedTable
  rw [List.getD_append _ _ _ _ (by rw [List.length_set]; omega)]
  simp only [List.getD_eq_getElem?_getD]
  rw [List.getElem?_set_self (by omega)]
  rfl

/-- Behind the certificate comes the padding. -/
theorem revisedTable_getD_pad {i : Nat} (hi : l.certLength ≤ i) :
    (revisedTable image l r pad).getD i 0 = pad.getD (i - l.certLength) 0 := by
  have hlen := length_certificate hl
  unfold revisedTable
  rw [List.getD_append_right _ _ _ _ (by rw [List.length_set]; omega), List.length_set, hlen]

/-- The revised table passes the checks of the length and the revision. -/
theorem revisedTable_ok (hr : r = 1 ∨ r = 2) :
    readU32 (revisedTable image l r pad) 0 = l.certLength ∧
    (readU16 (revisedTable image l r pad) 4 = 0x0100 ∨
      readU16 (revisedTable image l r pad) 4 = 0x0200) ∧
    readU16 (revisedTable image l r pad) 6 = 0x0002 ∧
    slice (revisedTable image l r pad) 8 (l.certLength - 8) = authenticodeCms image l := by
  have hlen := length_certificate hl
  obtain ⟨-, hcert⟩ := layout_eq_some_iff.mp hl
  rw [certLayout_eq_some_iff] at hcert
  obtain ⟨-, -, -, -, hL, -, -, h8, -, hrev, htype, -⟩ := hcert
  have hbyte : ∀ i, i < l.certLength → i ≠ 5 →
      byteAt (revisedTable image l r pad) i = byteAt image (l.certOffset + i) := by
    intro i hi h5
    unfold byteAt
    rw [revisedTable_getD hl r pad hi h5]
  have hbyte5 : byteAt (revisedTable image l r pad) 5 = r.toNat := by
    unfold byteAt
    rw [revisedTable_getD_revision hl r pad h8]
  refine ⟨?_, ?_, ?_, ?_⟩
  · unfold readU32 readU16 at hL ⊢
    rw [hbyte 0 (by omega) (by omega), hbyte (0 + 1) (by omega) (by omega),
      hbyte (0 + 2) (by omega) (by omega), hbyte (0 + 2 + 1) (by omega) (by omega)]
    exact hL.symm
  · -- the low byte of the original revision is zero
    have hlow : byteAt image (l.certOffset + 4) = 0 := by
      have h1 := byteAt_lt image (l.certOffset + 4)
      unfold readU16 at hrev
      omega
    unfold readU16
    rw [hbyte 4 (by omega) (by omega), hlow, hbyte5]
    rcases hr with rfl | rfl
    · left
      rfl
    · right
      rfl
  · unfold readU16 at htype ⊢
    rw [hbyte 6 (by omega) (by omega), hbyte (6 + 1) (by omega) (by omega)]
    exact htype
  · unfold revisedTable authenticodeCms
    rw [slice_append_left _ (by rw [List.length_set]; omega)]
    unfold slice
    rw [List.drop_set_of_lt (by omega), List.drop_take, List.take_take, List.drop_drop,
      Nat.min_self]

end

section

variable {image : List UInt8} {l : CertLayout}

def firstSectionField (image : List UInt8) : Nat := peSectionOffset image + 8

/-- Where the headers of a loadable image lie. -/
theorem loadable_bounds (h : execValidatePeHeader image = true) :
    64 ≤ peOffset image ∧ peNumberOfSections image ≠ 0 ∧ 240 ≤ peSizeOfOptionalHeader image ∧
      peSectionOffset image + 40 ≤ image.length := by
  unfold execValidatePeHeader execImageHasPeSignature at h
  simp only [Bool.and_eq_true, decide_eq_true_eq] at h
  omega

/-- The loader reads the first section header. -/
theorem loaderUses_firstSectionField (h : execValidatePeHeader image = true) :
    LoaderUses image (firstSectionField image) := by
  obtain ⟨-, hns, -, -⟩ := loadable_bounds h
  refine ⟨(peSectionHeader image 0 + 8, 16), ?_, ?_⟩
  · unfold loaderRanges
    dsimp only
    rw [List.mem_append]
    right
    rw [List.mem_flatMap]
    exact ⟨0, List.mem_range.mpr (by omega), List.mem_cons_self⟩
  · unfold firstSectionField peSectionHeader
    omega

/-- An image that is accepted and loadable, and whose certificate table does not cover
the first section header, has a forgery that changes this header. -/
theorem exists_forgery {P : CmsPrimitives} {signer : List UInt8} (hsize : image.length < 2 ^ 31)
    (hload : execValidatePeHeader image = true) (hl : authenticodeLayout image = some l)
    (hacc : authenticodeVerifyPe P image = some signer)
    (hout : ¬ InCertTable l (firstSectionField image)) :
    ∃ other m, other.length < 2 ^ 32 ∧ authenticodeLayout other = some m ∧
      authenticodeVerifyPe P other = some signer ∧
      authenticodeCms other m = authenticodeCms image l ∧
      authenticodeDigestInput other m = authenticodeDigestInput image l ∧
      other.getD (firstSectionField image) 0 ≠ image.getD (firstSectionField image) 0 := by
  obtain ⟨hpe, -, hopt, hsec⟩ := loadable_bounds hload
  have hb := layout_bounds hl
  obtain ⟨hoo, hcert⟩ := layout_eq_some_iff.mp hl
  rw [optionalOffset_eq_some_iff] at hoo
  rw [certLayout_eq_some_iff] at hcert
  obtain ⟨hoo, h100, -⟩ := hoo
  obtain ⟨-, -, -, -, -, -, -, h8, hLs, -⟩ := hcert
  have hx : firstSectionField image =
      l.optionalOffset + readU16 image (readU32 image 0x3C + 20) + 8 := by
    rw [hoo]
    rfl
  have hsec' : peSectionOffset image + 8 = firstSectionField image := rfl
  have hopt' : 240 ≤ readU16 image (readU32 image 0x3C + 20) := hopt
  have hpe' : 64 ≤ readU32 image 0x3C := hpe
  generalize firstSectionField image = x at hx hsec' hout ⊢
  by_cases hnear : x + l.certSize ≤ image.length + 5
  · -- move the table so that the revision byte lands on the field
    obtain ⟨r, hr, hne⟩ : ∃ r : UInt8, (r = 1 ∨ r = 2) ∧ r ≠ image.getD x 0 := by
      by_cases h1 : image.getD x 0 = 1
      · exact ⟨2, .inr rfl, by rw [h1]; decide⟩
      · exact ⟨1, .inl rfl, fun h => h1 h.symm⟩
    have hlen := length_revisedTable hl r (List.replicate (l.certSize - l.certLength) 0)
    rw [List.length_replicate] at hlen
    obtain ⟨t1, t2, t3, t4⟩ := revisedTable_ok hl r (List.replicate (l.certSize - l.certLength) 0) hr
    have hrev := revisedTable_getD_revision hl r (List.replicate (l.certSize - l.certLength) 0) h8
    generalize revisedTable image l r (List.replicate (l.certSize - l.certLength) 0) = t at hlen t1 t2 t3 t4 hrev
    have hk : l.securityDirOffset + 8 ≤ x - 5 := by omega
    have hk' : x - 5 + l.certSize ≤ image.length := by omega
    have htotal := length_forge t hl hk hk'
    have hlayout := forge_layout t hl hk hk' (by omega) (by omega) (by omega) (by omega) t1 t2 t3
    obtain ⟨hacc', hcms⟩ := forge_accepted t hl hacc hk hk' hlayout (by omega) t4
    refine ⟨_, _, by omega, hlayout, hacc', hcms, forge_digestInput t hl hk hk', ?_⟩
    have hbyte := forge_getD_table t hl hk hk' (o := 5) (by omega)
    rw [Nat.sub_add_cancel (by omega)] at hbyte
    rw [hbyte, hrev]
    exact hne
  · -- the file is too short for that: pad the table until it covers the field
    unfold InCertTable at hout
    have hlen := length_revisedTable hl 1
      (List.replicate (x - (l.securityDirOffset + 8) - l.certLength + 1) (image.getD x 0 + 1))
    rw [List.length_replicate] at hlen
    obtain ⟨t1, t2, t3, t4⟩ := revisedTable_ok hl 1
      (List.replicate (x - (l.securityDirOffset + 8) - l.certLength + 1) (image.getD x 0 + 1))
      (.inl rfl)
    have hpad := revisedTable_getD_pad hl 1
      (List.replicate (x - (l.securityDirOffset + 8) - l.certLength + 1) (image.getD x 0 + 1))
      (i := x - (l.securityDirOffset + 8)) (by omega)
    rw [List.getD_replicate _ (by omega)] at hpad
    generalize revisedTable image l 1
      (List.replicate (x - (l.securityDirOffset + 8) - l.certLength + 1) (image.getD x 0 + 1)) = t
      at hlen t1 t2 t3 t4 hpad
    have hk : l.securityDirOffset + 8 ≤ l.securityDirOffset + 8 := Nat.le_refl _
    have hk' : l.securityDirOffset + 8 + l.certSize ≤ image.length := by omega
    have htotal := length_forge t hl hk hk'
    have hlayout := forge_layout t hl hk hk' (by omega) (by omega) (by omega) (by omega) t1 t2 t3
    obtain ⟨hacc', hcms⟩ := forge_accepted t hl hacc hk hk' hlayout (by omega) t4
    refine ⟨_, _, by omega, hlayout, hacc', hcms, forge_digestInput t hl hk hk', ?_⟩
    have hbyte := forge_getD_table t hl hk hk' (o := x - (l.securityDirOffset + 8)) (by omega)
    rw [Nat.add_sub_cancel' (by omega)] at hbyte
    rw [hbyte, hpad]
    intro heq
    exact absurd (UInt8.toNat_inj.mpr heq) (by
      rw [UInt8.toNat_add]
      have := UInt8.toNat_lt (image.getD x 0)
      simp only [UInt8.toNat_one]
      omega)

end

/-- An accepted image has a layout. -/
theorem exists_layout {P : CmsPrimitives} {image signer : List UInt8}
    (hacc : authenticodeVerifyPe P image = some signer) :
    ∃ l, authenticodeLayout image = some l := by
  cases hl : authenticodeLayout image with
  | none => simp [authenticodeVerifyPe, hl] at hacc
  | some l => exact ⟨l, rfl⟩

/-- If the signed code is the loaded code, the certificate table covers the first section header. -/
theorem SignedCodeIsLoaded.covers {P : CmsPrimitives} {image signer : List UInt8} {l : CertLayout}
    (h : SignedCodeIsLoaded P image) (hsize : image.length < 2 ^ 31)
    (hload : execValidatePeHeader image = true) (hl : authenticodeLayout image = some l)
    (hacc : authenticodeVerifyPe P image = some signer) :
    InCertTable l (firstSectionField image) := by
  by_contra hout
  obtain ⟨-, hbound⟩ := h l signer hl hacc
  obtain ⟨other, m, h32, hm, hacc', hcms, hdigest, hdiff⟩ :=
    exists_forgery hsize hload hl hacc hout
  have hcollide := hbound other m h32 hm hacc' hcms ⟨_, loaderUses_firstSectionField hload, hdiff⟩
  exact hcollide.1 hdigest.symm

/-- No image that is accepted and loadable has the property that its signature covers
the code that is loaded: either its certificate table covers the first section header,
or the table can be moved there. -/
theorem not_signedCodeIsLoaded (P : CmsPrimitives) (image signer : List UInt8)
    (hsize : image.length < 2 ^ 31) (hload : execValidatePeHeader image = true)
    (hacc : authenticodeVerifyPe P image = some signer) : ¬ SignedCodeIsLoaded P image := by
  intro hprop
  obtain ⟨l, hl⟩ := exists_layout hacc
  have hin := hprop.covers hsize hload hl hacc
  exact (hprop l signer hl hacc).1 _ (loaderUses_firstSectionField hload) hin

def sampleImage : List UInt8 :=
  le16 0x5A4D ++ List.replicate 58 0 ++ le32 64 ++
  [0x50, 0x45, 0, 0] ++ le16 0x8664 ++ le16 1 ++ List.replicate 12 0 ++ le16 240 ++ le16 2 ++
  le16 0x20B ++ List.replicate 14 0 ++ le32 0x1000 ++ List.replicate 4 0 ++ le32 0x04000000 ++
  le32 0 ++ le32 4096 ++ le32 512 ++ List.replicate 20 0 ++ le32 368 ++ le32 0 ++ le16 3 ++
  List.replicate 38 0 ++ le32 16 ++ List.replicate 32 0 ++ le32 368 ++ le32 16 ++
  List.replicate 88 0 ++
  List.replicate 8 0 ++ le32 16 ++ le32 0x1000 ++ le32 0 ++ le32 0 ++ List.replicate 12 0 ++
  le32 0x20000000 ++
  le32 9 ++ le16 0x0200 ++ le16 2 ++ [0x30] ++ List.replicate 7 0

def samplePrimitives : CmsPrimitives where
  sha256 := fun _ => List.replicate 32 0
  authenticodeVerifyCms := fun cms _ => if cms = [0x30] then some [1] else none

/-- The sample passes the loader's checks. -/
theorem sampleImage_loadable : execValidatePeHeader sampleImage = true := by decide +kernel

/-- The sample is accepted. -/
theorem sampleImage_accepted : authenticodeVerifyPe samplePrimitives sampleImage = some [1] := by
  decide +kernel

/-- The theorem at the sample. -/
theorem not_signedCodeIsLoaded_sampleImage : ¬ SignedCodeIsLoaded samplePrimitives sampleImage :=
  not_signedCodeIsLoaded samplePrimitives sampleImage [1] (by decide +kernel) sampleImage_loadable sampleImage_accepted

/-- It is not true of every image that its signature covers the code that is loaded: the
table of the sample lies behind everything the loader uses, and can be moved. -/
theorem signedCodeIsLoaded_fails :
    ¬ ∀ (P : CmsPrimitives) (image : List UInt8), image.length < 2 ^ 31 →
        SignedCodeIsLoaded P image := by
  intro hall
  have hsize : sampleImage.length < 2 ^ 31 := by decide +kernel
  have hprop := hall samplePrimitives sampleImage hsize
  have hl : authenticodeLayout sampleImage = some ⟨88, 232, 368, 16, 9⟩ := by decide +kernel
  have hin := hprop.covers hsize sampleImage_loadable hl sampleImage_accepted
  have hfield : firstSectionField sampleImage = 336 := by decide
  rw [hfield] at hin
  unfold InCertTable at hin
  dsimp only at hin
  omega

end Monios.Analysis.SignedImage
