import Mathlib.Data.List.TakeWhile
import Monios.Library.Der
import Monios.Model.X509Parse

/-!
# The names of certificates

What `x509_parse_name` makes of the encoding of a name (`x509ParseName_result`): an attribute is
kept with the part of its value before the first zero byte, and with no more than 127 bytes of it.
So a name is compared as it is encoded if and only if its values fit into the buffer and have no
zero byte, and every other name is taken for a shorter one.
-/

set_option autoImplicit false

namespace Monios.Analysis.CertificateNames

open Monios.Library Monios.Library.Logged Monios.Model Monios.Model.X509Parse

section

variable {d : List UInt8} {p len : Nat}

/-- A byte is read and given to the rest. -/
theorem byte_bind {α : Type} (i : Nat) (f : UInt8 → Parser α) :
    (byte d i >>= f).result = (f (d.getD i 0)).result := rfl

/-- A big-endian number is read back. -/
theorem bigEndian_result {w : List UInt8} {k v : Nat} (h : HoldsAt d p w) (hv : v < 256 ^ k)
    (hk : k + w.length ≤ 4) :
    (bigEndian d w.length p v).result = some (w.foldl (fun v b => v * 256 + b.toNat) v) := by
  induction w generalizing p k v with
  | nil => rfl
  | cons b w ih =>
    rw [List.length_cons] at hk
    have hb := h.getD (i := 0) (Nat.succ_pos _)
    have htail : HoldsAt d (p + 1) w := h.right (u := [b])
    have hpow : v * 256 + b.toNat < 256 ^ (k + 1) := by
      have hbyte := b.toNat_lt
      rw [Nat.pow_succ]
      generalize 256 ^ k = bound at hv
      omega
    have hmod : v * 256 % 2 ^ 32 = v * 256 := by
      have hfour : 256 ^ (k + 1) ≤ 256 ^ 4 := Nat.pow_le_pow_right (by decide) (by omega)
      exact Nat.mod_eq_of_lt (Nat.lt_of_le_of_lt (Nat.le_add_right _ _) (Nat.lt_of_lt_of_le hpow hfour))
    rw [Nat.add_zero, List.getD_cons_zero] at hb
    rw [List.length_cons]
    unfold bigEndian
    rw [byte_bind, hb, hmod]
    exact ih htail hpow (by omega)

variable {tag : UInt8} {content : List UInt8}

/-- The length of an encoding is read back. -/
theorem asn1ReadLength_result (h : HoldsAt d p (tlv tag content))
    (hlen : (tlv tag content).length ≤ len) (hsize : content.length < 2 ^ 32) :
    (asn1ReadLength d p len).result = some (content.length, headerLength content.length) := by
  have hlength := length_tlv tag content
  have hlengthBytes : HoldsAt d (p + 1) (lengthBytes content.length) := (h.right (u := [tag])).left
  unfold asn1ReadLength
  unfold headerLength lengthBytes at *
  by_cases hshort : content.length < 0x80
  · rw [if_pos hshort] at *
    have hb := hlengthBytes.getD (i := 0) (Nat.succ_pos _)
    rw [Nat.add_zero, List.getD_cons_zero] at hb
    rw [result_require_bind, if_pos (by rw [List.length_singleton] at hlength; omega), byte_bind, hb, UInt8.toNat_ofNat',
      Nat.mod_eq_of_lt (by omega), if_pos hshort]
    rfl
  · rw [if_neg hshort] at *
    have hcount : (bigEndianBytes content.length).length ≤ 4 := length_bigEndianBytes_le hsize
    obtain ⟨first, rest, hbytes, hfirst⟩ := bigEndianBytes_head (n := content.length) (by omega)
    have hvalue := foldl_bigEndianBytes content.length
    generalize bigEndianBytes content.length = w at *
    subst hbytes
    have hb := hlengthBytes.getD (i := 0) (Nat.succ_pos _)
    have hfirst' := hlengthBytes.getD (i := 1) (by simp)
    have hw : HoldsAt d (p + 2) (first :: rest) := hlengthBytes.right (u := [_])
    rw [Nat.add_zero, List.getD_cons_zero] at hb
    rw [List.getD_cons_succ, List.getD_cons_zero] at hfirst'
    rw [List.length_cons] at hlength
    have hcode : (UInt8.ofNat (0x80 + (first :: rest).length)).toNat =
        0x80 + (first :: rest).length := by
      rw [UInt8.toNat_ofNat', Nat.mod_eq_of_lt (by omega)]
    have hnum : (0x80 + (first :: rest).length) % 0x80 = (first :: rest).length := by omega
    -- a length of one byte is at least 128
    have hminimal : (first :: rest).length = 1 → 0x80 ≤ first := by
      intro hone
      have hrest : rest = [] := List.length_eq_zero_iff.mp (by rw [List.length_cons] at hone; omega)
      subst hrest
      rw [List.foldl_cons, List.foldl_nil] at hvalue
      rw [UInt8.le_iff_toNat_le]
      show 0x80 ≤ first.toNat
      omega
    rw [result_require_bind, if_pos (by omega), byte_bind, hb, hcode, if_neg (by omega)]
    dsimp only
    rw [hnum, result_require_bind, if_pos ⟨by simp, hcount⟩, result_require_bind,
      if_pos (by omega), byte_bind,
      show p + 2 = p + 1 + 1 from rfl, hfirst', result_require_bind, if_pos ⟨hfirst, hminimal⟩,
      result_bind (bigEndian_result (k := 0) hw (by decide) (by omega)), hvalue, @List.length_cons _ _ (first :: rest),
      Nat.add_comm 2]
    rfl

/-- The header of an encoding is read back. -/
theorem asn1Header_result (h : HoldsAt d p (tlv tag content))
    (hlen : (tlv tag content).length ≤ len) (hsize : content.length < 2 ^ 32) :
    (asn1Header d p len).result = some (content.length, headerLength content.length) := by
  have hlength := length_tlv tag content
  unfold asn1Header
  rw [result_bind (asn1ReadLength_result h hlen hsize), result_require_bind, if_pos (by omega)]
  rfl

/-- The whole length of an encoding is read back. -/
theorem asn1TlvTotalLength_result (h : HoldsAt d p (tlv tag content))
    (hlen : (tlv tag content).length ≤ len) (hsize : content.length < 2 ^ 32) :
    (asn1TlvTotalLength d p len).result = some (tlv tag content).length := by
  unfold asn1TlvTotalLength
  rw [result_bind (asn1Header_result h hlen hsize), length_tlv]
  rfl

/-- The contents of an encoding are found. -/
theorem asn1ParseContainer_result (h : HoldsAt d p (tlv tag content))
    (hlen : (tlv tag content).length ≤ len) (hsize : content.length < 2 ^ 32) :
    (asn1ParseContainer d tag p len).result =
      some (p + headerLength content.length, content.length) := by
  have htag := h.getD (i := 0) (Nat.succ_pos _)
  have hlength := length_tlv tag content
  have hheader := one_le_length_lengthBytes content.length
  unfold asn1ParseContainer
  rw [result_require_bind, if_pos (by unfold headerLength at hlength; omega), byte_bind, ← Nat.add_zero p, htag,
    Nat.add_zero, result_require_bind, if_pos (by rfl), result_bind (asn1Header_result h hlen hsize)]
  rfl

/-- The contents stand behind the header. -/
theorem holds_content (h : HoldsAt d p (tlv tag content)) :
    HoldsAt d (p + headerLength content.length) content := by
  have hcontent := (h.right (u := [tag])).right
  rwa [Nat.add_assoc, List.length_singleton, Nat.add_comm 1] at hcontent

end

structure Attribute where
  oid : List UInt8
  tag : UInt8
  value : List UInt8

def Attribute.encode (a : Attribute) : List UInt8 :=
  tlv asn1TagSequence (tlv asn1TagOid a.oid ++ tlv a.tag a.value)

def encodeRdn (rdn : List Attribute) : List UInt8 := tlv asn1TagSet (rdn.flatMap Attribute.encode)

def encodeName (X : List (List Attribute)) : List UInt8 := tlv asn1TagSequence (X.flatMap encodeRdn)

structure NameAt (d : List UInt8) (p len : Nat) (X : List (List Attribute)) : Prop where
  holds : HoldsAt d p (encodeName X)
  inside : (encodeName X).length ≤ len
  size : len < 2 ^ 32

def bmpChars : Nat → List UInt8 → Option (List UInt8)
  | 0, _ => some []
  | n + 1, high :: low :: rest => if high = 0 then (bmpChars n rest).map (low :: ·) else none
  | _ + 1, _ => none

def storedString (tag : UInt8) (value : List UInt8) (maxLen : Nat) : Option (List UInt8) :=
  if isStringTag tag = false then none
  else if tag = asn1TagBmpString then
    if value.length % 2 = 0 then bmpChars (min (value.length / 2) (maxLen - 1)) value else none
  else some (value.take (maxLen - 1))

def Accepted (a : Attribute) : Prop := a.oid.length ≤ 32 ∧ (storedString a.tag a.value 128).isSome

instance (a : Attribute) : Decidable (Accepted a) := inferInstanceAs (Decidable (_ ∧ _))

def kept (a : Attribute) : List UInt8 :=
  ((storedString a.tag a.value 128).getD []).takeWhile (· != 0)

def entryWith (value : Attribute → List UInt8) (i : Nat) (a : Attribute) : NameEntry :=
  ⟨a.oid, value a, i⟩

def entriesWith (value : Attribute → List UInt8) : Nat → List (List Attribute) → List NameEntry
  | _, [] => []
  | i, rdn :: X => rdn.map (entryWith value i) ++ entriesWith value (i + 1) X

def storedSet (i : Nat) (rdn : List Attribute) (name : List NameEntry) : Option (List NameEntry) :=
  if (∀ a ∈ rdn, Accepted a) ∧ name.length + rdn.length ≤ x509MaxNameEntries then some (name ++ rdn.map (entryWith kept i))
  else none

def storedRdns (i : Nat) (X : List (List Attribute)) (name : List NameEntry) :
    Option (List NameEntry) :=
  if (∀ rdn ∈ X, rdn ≠ [] ∧ ∀ a ∈ rdn, Accepted a) ∧ name.length + (entriesWith kept i X).length ≤ x509MaxNameEntries ∧
      0 < name.length + (entriesWith kept i X).length then some (name ++ entriesWith kept i X)
  else none

section

variable {d : List UInt8} {p len : Nat}

theorem copy_result (size i n : Nat) : (copy d size i n).result = some (slice d i n) := rfl

/-- A BMP string is read character by character. -/
theorem asn1BmpChars_result {value : List UInt8} {n maxLen : Nat} (h : HoldsAt d p value)
    (hn : 2 * n ≤ value.length) (out : List UInt8) :
    (asn1BmpChars d maxLen n p out).result = (bmpChars n value).map (out ++ ·) := by
  induction n generalizing p value out with
  | zero =>
    show some out = some (out ++ [])
    rw [List.append_nil]
  | succ n ih =>
    obtain _ | ⟨high, _ | ⟨low, rest⟩⟩ := value
    · simp at hn
    · rw [List.length_singleton] at hn
      omega
    have hhigh := h.getD (i := 0) (Nat.succ_pos _)
    have hlow := h.getD (i := 1) (by simp)
    have hrest : HoldsAt d (p + 2) rest := h.right (u := [high, low])
    rw [Nat.add_zero, List.getD_cons_zero] at hhigh
    rw [List.getD_cons_succ, List.getD_cons_zero] at hlow
    rw [List.length_cons, List.length_cons] at hn
    unfold asn1BmpChars bmpChars
    rw [byte_bind, hhigh, result_require_bind]
    by_cases hzero : high = 0
    · rw [if_pos hzero, if_pos hzero, byte_bind, hlow, result_emit_bind, ih hrest (by omega),
        Option.map_map]
      congr 1
      funext chars
      simp
    · rw [if_neg hzero, if_neg hzero]
      rfl

/-- A string is read as the storage of its kind keeps it. -/
theorem asn1ParseString_result {tag : UInt8} {value : List UInt8} {maxLen : Nat}
    (h : HoldsAt d p (tlv tag value)) (hlen : (tlv tag value).length ≤ len)
    (hsize : value.length < 2 ^ 32) (hmax : maxLen ≠ 0) :
    (asn1ParseString d p len maxLen).result = storedString tag value maxLen := by
  have htag := h.getD (i := 0) (Nat.succ_pos _)
  have hcontent := holds_content h
  have hlength := length_tlv tag value
  have hheader : 1 ≤ (lengthBytes value.length).length := one_le_length_lengthBytes _
  unfold asn1ParseString storedString
  rw [result_require_bind, if_pos ⟨hmax, by unfold headerLength at hlength; omega⟩, byte_bind, ← Nat.add_zero p, htag,
    Nat.add_zero, show (tlv tag value).getD 0 0 = tag from rfl, result_require_bind]
  cases isStringTag tag with
  | false => rfl
  | true =>
    rw [if_pos rfl, if_neg Bool.true_eq_false_eq_False, result_bind (asn1Header_result h hlen hsize)]
    dsimp only
    by_cases hbmp : tag = asn1TagBmpString
    · rw [if_pos hbmp, if_pos hbmp, result_require_bind]
      by_cases heven : value.length % 2 = 0
      · rw [if_pos heven, if_pos heven, result_bind_eq, asn1BmpChars_result hcontent (by omega)]
        cases bmpChars (min (value.length / 2) (maxLen - 1)) value with
        | none => rfl
        | some chars => rfl
      · rw [if_neg heven, if_neg heven]
    · rw [if_neg hbmp, if_neg hbmp, result_bind (copy_result _ _ _), result_emit_bind,
        hcontent.slice (Nat.min_le_left _ _), List.take_eq_take_min (i := maxLen - 1), Nat.min_comm (maxLen - 1)]
      rfl

/-- An attribute is read as what is stored of it. -/
theorem x509ParseAttribute_result {a : Attribute} {i count : Nat}
    (h : HoldsAt d p (tlv asn1TagOid a.oid ++ tlv a.tag a.value))
    (hlen : len = (tlv asn1TagOid a.oid ++ tlv a.tag a.value).length) (hsize : len < 2 ^ 32) :
    (x509ParseAttribute d i count p len).result =
      if Accepted a then some (entryWith kept i a) else none := by
  have hoid := length_tlv asn1TagOid a.oid
  have hvalue := length_tlv a.tag a.value
  rw [List.length_append] at hlen
  have hpos : 0 < (tlv a.tag a.value).length := Nat.succ_pos _
  have hcontent := holds_content h.left
  have hright := h.right
  rw [hoid] at hright
  unfold x509ParseAttribute
  rw [show asn1ParseOid d p len = asn1ParseContainer d asn1TagOid p len from rfl,
    result_bind (asn1ParseContainer_result h.left (by omega) (by omega))]
  dsimp only
  rw [result_require_bind]
  by_cases hoidLen : a.oid.length ≤ 32
  · rw [if_pos hoidLen, result_bind (asn1Header_result h.left (by omega) (by omega))]
    dsimp only
    rw [result_require_bind, if_pos (by omega), result_emit_bind, result_bind_eq,
      asn1ParseString_result hright (by omega) (by omega) (by decide)]
    cases hstored : storedString a.tag a.value 128 with
    | none =>
      rw [if_neg]
      · rfl
      · rintro ⟨-, hsome⟩
        rw [hstored] at hsome
        cases hsome
    | some value =>
      rw [Option.bind_some, result_bind (copy_result _ _ _), result_emit_bind,
        hcontent.slice (Nat.le_refl _), List.take_length,
        if_pos ⟨hoidLen, by rw [hstored]; rfl⟩]
      unfold entryWith kept
      rw [hstored]
      rfl
  · rw [if_neg hoidLen, if_neg fun hboth => hoidLen hboth.1]

theorem length_encode (a : Attribute) : 0 < a.encode.length := Nat.succ_pos _

/-- A relative name is read attribute by attribute. -/
theorem x509ParseSet_result {rdn : List Attribute} {setP setLen i rounds offset : Nat}
    {name : List NameEntry} (h : HoldsAt d (setP + offset) (rdn.flatMap Attribute.encode))
    (hlen : offset + (rdn.flatMap Attribute.encode).length = setLen) (hsize : setLen < 2 ^ 32)
    (hrounds : rdn.length ≤ rounds) (hname : name.length ≤ x509MaxNameEntries) :
    (x509ParseSet d setP setLen i rounds offset name).result = storedSet i rdn name := by
  induction rdn generalizing offset rounds name with
  | nil =>
    have hend : offset = setLen := hlen
    have hstored : storedSet i [] name = some name := by
      unfold storedSet
      rw [if_pos ⟨fun _ ha => absurd ha List.not_mem_nil, hname⟩, List.map_nil, List.append_nil]
    rw [hstored]
    cases rounds with
    | zero =>
      unfold x509ParseSet
      rw [if_neg (by omega), result_require_bind, if_pos hend]
      rfl
    | succ rounds =>
      unfold x509ParseSet
      rw [if_neg (by omega), result_require_bind, if_pos hend]
      rfl
  | cons a rdn ih =>
    obtain _ | rounds := rounds
    · exact absurd hrounds (Nat.not_succ_le_zero _)
    rw [List.flatMap_cons] at h hlen
    rw [List.length_append] at hlen
    have hpos := length_encode a
    have hattribute : HoldsAt d (setP + offset) a.encode := h.left
    have hrest := h.right
    rw [Nat.add_assoc] at hrest
    have hcontent := length_tlv asn1TagSequence (tlv asn1TagOid a.oid ++ tlv a.tag a.value)
    change a.encode.length = _ at hcontent
    unfold x509ParseSet
    rw [if_pos (by omega), result_require_bind]
    by_cases hroom : name.length < x509MaxNameEntries
    · rw [if_pos hroom, show asn1ParseSequence d (setP + offset) (setLen - offset) =
          asn1ParseContainer d asn1TagSequence (setP + offset) (setLen - offset) from rfl,
        result_bind (asn1ParseContainer_result hattribute (by change a.encode.length ≤ _; omega) (by omega))]
      dsimp only
      rw [result_bind (asn1TlvTotalLength_result hattribute (by change a.encode.length ≤ _; omega) (by omega)), result_bind_eq,
        x509ParseAttribute_result (holds_content hattribute) rfl (by omega)]
      unfold storedSet
      by_cases haccepted : Accepted a
      · rw [if_pos haccepted, Option.bind_some,
          show (tlv asn1TagSequence (tlv asn1TagOid a.oid ++ tlv a.tag a.value)).length = a.encode.length from rfl,
          ih hrest (by omega) (Nat.le_of_succ_le_succ hrounds) (by rw [List.length_append]; exact hroom)]
        unfold storedSet
        simp [haccepted, Nat.add_assoc, Nat.add_comm 1]
      · rw [if_neg haccepted, if_neg fun hall => haccepted (hall.1 a List.mem_cons_self)]
        rfl
    · unfold storedSet
      rw [if_neg hroom, if_neg]
      rintro ⟨-, hcount⟩
      rw [List.length_cons] at hcount
      omega

/-- A name does not get more entries than there is room for. -/
theorem storedSet_length {i : Nat} {rdn : List Attribute} {name name' : List NameEntry}
    (h : storedSet i rdn name = some name') :
    name'.length ≤ x509MaxNameEntries := by
  unfold storedSet at h
  split at h
  · next hall =>
    cases h
    rw [List.length_append, List.length_map]
    exact hall.2
  · cases h

theorem length_encodeRdn (rdn : List Attribute) : 0 < (encodeRdn rdn).length := Nat.succ_pos _

theorem length_le_flatMap {α : Type} {f : α → List UInt8} (hf : ∀ a, 0 < (f a).length)
    (l : List α) :
    l.length ≤ (l.flatMap f).length := by
  induction l with
  | nil => exact Nat.le_refl _
  | cons a l ih =>
    have := hf a
    rw [List.flatMap_cons, List.length_append, List.length_cons]
    omega

/-- The relative names are read one after the other. -/
theorem x509ParseRdns_result {X : List (List Attribute)} {content contentLen i rounds offset : Nat}
    {name : List NameEntry} (h : HoldsAt d (content + offset) (X.flatMap encodeRdn))
    (hlen : offset + (X.flatMap encodeRdn).length = contentLen) (hsize : contentLen < 2 ^ 32)
    (hrounds : X.length ≤ rounds) (hname : name.length ≤ x509MaxNameEntries) :
    (x509ParseRdns d content contentLen rounds offset i name).result = storedRdns i X name := by
  induction X generalizing offset rounds i name with
  | nil =>
    have hend : offset = contentLen := hlen
    unfold storedRdns entriesWith
    cases rounds with
    | zero =>
      unfold x509ParseRdns
      rw [if_neg (by omega), result_require_bind]
      simp [hend, hname, result_pure]
    | succ rounds =>
      unfold x509ParseRdns
      rw [if_neg (by omega), result_require_bind]
      simp [hend, hname, result_pure]
  | cons rdn X ih =>
    obtain _ | rounds := rounds
    · exact absurd hrounds (Nat.not_succ_le_zero _)
    rw [List.flatMap_cons] at h hlen
    rw [List.length_append] at hlen
    have hpos := length_encodeRdn rdn
    have hset : HoldsAt d (content + offset) (encodeRdn rdn) := h.left
    have hrest := h.right
    rw [Nat.add_assoc] at hrest
    have hcontent := length_tlv asn1TagSet (rdn.flatMap Attribute.encode)
    change (encodeRdn rdn).length = _ at hcontent
    have htag := hset.getD (i := 0) (Nat.succ_pos _)
    have hinner : HoldsAt d (content + offset + headerLength (rdn.flatMap Attribute.encode).length + 0)
        (rdn.flatMap Attribute.encode) := holds_content hset
    unfold x509ParseRdns
    rw [if_pos (by omega), byte_bind, ← Nat.add_zero (content + offset), htag, Nat.add_zero,
      show (encodeRdn rdn).getD 0 0 = asn1TagSet from rfl, result_require_bind, if_pos rfl,
      result_bind (asn1ParseContainer_result hset (by change (encodeRdn rdn).length ≤ _; omega) (by omega))]
    dsimp only
    rw [result_require_bind]
    by_cases hempty : rdn = []
    · subst hempty
      unfold storedRdns
      rw [if_neg (by simp), if_neg fun hall => (hall.1 [] List.mem_cons_self).1 rfl]
    have hcount := length_le_flatMap length_encode rdn
    have hne := List.length_pos_iff.mpr hempty
    rw [if_pos (by omega), result_bind_eq, x509ParseSet_result hinner (Nat.zero_add _) (by omega) hcount hname]
    cases hstored : storedSet i rdn name with
    | none =>
      unfold storedSet at hstored
      unfold storedRdns
      rw [if_neg]
      · rfl
      · rintro ⟨hall, hroom, -⟩
        unfold entriesWith at hroom
        rw [List.length_append, List.length_map] at hroom
        rw [if_pos ⟨(hall rdn List.mem_cons_self).2, by omega⟩] at hstored
        cases hstored
    | some name' =>
      have hname' := storedSet_length hstored
      rw [Option.bind_some, result_bind (asn1TlvTotalLength_result hset (by change (encodeRdn rdn).length ≤ _; omega) (by omega)),
        result_require_bind,
        show (tlv asn1TagSet (rdn.flatMap Attribute.encode)).length = (encodeRdn rdn).length from rfl,
        if_pos ⟨by omega, by omega⟩, ih hrest (by omega) (Nat.le_of_succ_le_succ hrounds) hname']
      unfold storedSet at hstored
      split at hstored
      · next hall =>
        cases hstored
        have hrdn : (∀ a ∈ rdn, Accepted a) ↔ True := iff_true_intro hall.1
        unfold storedRdns
        simp [entriesWith, hrdn, hempty, Nat.add_assoc]
      · cases hstored

/-- `x509_parse_name` on every encoding of a name. -/
theorem x509ParseName_result {X : List (List Attribute)} (h : NameAt d p len X) :
    (x509ParseName d p len).result = storedRdns 0 X [] := by
  have hlength := length_tlv asn1TagSequence (X.flatMap encodeRdn)
  change (encodeName X).length = _ at hlength
  have hinside := h.inside
  have hsize := h.size
  have hcount := length_le_flatMap length_encodeRdn X
  unfold x509ParseName
  rw [show asn1ParseSequence d p len = asn1ParseContainer d asn1TagSequence p len from rfl,
    result_bind (asn1ParseContainer_result h.holds hinside (by omega))]
  have hinner : HoldsAt d (p + headerLength (X.flatMap encodeRdn).length + 0) (X.flatMap encodeRdn) := holds_content h.holds
  exact x509ParseRdns_result hinner (Nat.zero_add _) (by omega) hcount (Nat.zero_le _)

end

theorem length_bmpChars {n : Nat} {value chars : List UInt8} (h : bmpChars n value = some chars) :
    chars.length = n := by
  induction n generalizing value chars with
  | zero =>
    cases h
    rfl
  | succ n ih =>
    obtain _ | ⟨high, _ | ⟨low, rest⟩⟩ := value
    · cases h
    · cases h
    unfold bmpChars at h
    split at h
    · obtain ⟨chars', hchars, rfl⟩ := Option.map_eq_some_iff.mp h
      rw [List.length_cons, ih hchars]
    · cases h

/-- A stored string is not longer than its limit. -/
theorem length_storedString {tag : UInt8} {value stored : List UInt8} {maxLen : Nat}
    (h : storedString tag value maxLen = some stored) :
    stored.length ≤ maxLen - 1 ∧ stored.length ≤ value.length := by
  unfold storedString at h
  split at h
  · cases h
  split at h
  · split at h
    · have := length_bmpChars h
      omega
    · cases h
  · cases h
    rw [List.length_take]
    omega

/-- What is kept of a value is short and has no zero byte. -/
theorem kept_fits (a : Attribute) :
    (kept a).length ≤ 127 ∧ (kept a).length ≤ a.value.length ∧ (0 : UInt8) ∉ kept a := by
  have hle := (List.takeWhile_sublist (p := (· != (0 : UInt8))) (l := (storedString a.tag a.value 128).getD [])).length_le
  have hzero : (0 : UInt8) ∉ kept a := by
    intro hmem
    have := List.mem_takeWhile_imp hmem
    simp at this
  change (kept a).length ≤ _ at hle
  cases hstored : storedString a.tag a.value 128 with
  | none =>
    rw [hstored, Option.getD_none, List.length_nil] at hle
    exact ⟨by omega, by omega, hzero⟩
  | some stored =>
    have := length_storedString hstored
    rw [hstored, Option.getD_some] at hle
    exact ⟨by omega, by omega, hzero⟩

def Fits (a : Attribute) : Prop := a.value.length ≤ 127 ∧ (0 : UInt8) ∉ a.value

theorem takeWhile_self {l : List UInt8} (h : (0 : UInt8) ∉ l) : l.takeWhile (· != 0) = l := by
  rw [List.takeWhile_eq_self_iff]
  intro b hb
  rw [bne_iff_ne]
  rintro rfl
  exact h hb

/-- A value is kept whole if and only if it fits. -/
theorem kept_eq_iff {a : Attribute} (h : Accepted a) : kept a = a.value ↔ Fits a := by
  constructor
  · intro hkept
    obtain ⟨hlen, -, hzero⟩ := kept_fits a
    rw [hkept] at hlen hzero
    exact ⟨hlen, hzero⟩
  · rintro ⟨hlen, hzero⟩
    obtain ⟨-, haccepted⟩ := h
    unfold kept
    unfold storedString at haccepted ⊢
    by_cases hstring : isStringTag a.tag = false
    · rw [if_pos hstring] at haccepted
      cases haccepted
    rw [if_neg hstring] at haccepted ⊢
    by_cases hbmp : a.tag = asn1TagBmpString
    · -- the high byte of a first character is zero
      rw [if_pos hbmp] at haccepted ⊢
      split at haccepted
      · next heven =>
        rw [if_pos heven]
        generalize a.value = value at *
        obtain _ | ⟨high, _ | ⟨low, rest⟩⟩ := value
        · rfl
        · cases heven
        · rw [List.length_cons, List.length_cons] at haccepted
          obtain ⟨n, hn⟩ : ∃ n, min ((rest.length + 1 + 1) / 2) (128 - 1) = n + 1 :=
            ⟨_, (Nat.succ_pred (by omega)).symm⟩
          rw [hn] at haccepted
          unfold bmpChars at haccepted
          split at haccepted
          · next hhigh => exact absurd (hhigh ▸ List.mem_cons_self) hzero
          · cases haccepted
      · cases haccepted
    · rw [if_neg hbmp, Option.getD_some, List.take_of_length_le hlen]
      exact takeWhile_self hzero

def NameFits (X : List (List Attribute)) : Prop := ∀ rdn ∈ X, ∀ a ∈ rdn, Fits a

def attributes (X : List (List Attribute)) : List NameEntry := entriesWith Attribute.value 0 X

/-- Two ways to keep attributes give one name if and only if they agree on each attribute. -/
theorem entriesWith_congr {f g : Attribute → List UInt8} {X : List (List Attribute)} {i : Nat} :
    entriesWith f i X = entriesWith g i X ↔ ∀ rdn ∈ X, ∀ a ∈ rdn, f a = g a := by
  induction X generalizing i with
  | nil => exact ⟨fun _ _ hrdn => absurd hrdn List.not_mem_nil, fun _ => rfl⟩
  | cons rdn X ih =>
    have hcons : entriesWith f i (rdn :: X) = entriesWith g i (rdn :: X) ↔
        rdn.map (entryWith f i) = rdn.map (entryWith g i) ∧ entriesWith f (i + 1) X = entriesWith g (i + 1) X := by
      constructor
      · exact fun h => List.append_inj h (by rw [List.length_map, List.length_map])
      · rintro ⟨hrdn, hrest⟩
        unfold entriesWith
        rw [hrdn, hrest]
    rw [hcons, ih, List.forall_mem_cons, List.map_inj_left]
    refine and_congr_left' (forall₂_congr fun a _ => ?_)
    unfold entryWith
    simp

/-- An entry of a name is that of one of its attributes. -/
theorem value_of_mem {f : Attribute → List UInt8} {X : List (List Attribute)} {i : Nat}
    {entry : NameEntry} (h : entry ∈ entriesWith f i X) : ∃ a, entry.value = f a := by
  induction X generalizing i with
  | nil => exact absurd h List.not_mem_nil
  | cons rdn X ih =>
    obtain hrdn | hrest := List.mem_append.mp h
    · obtain ⟨a, -, rfl⟩ := List.mem_map.mp hrdn
      exact ⟨a, rfl⟩
    · exact ih hrest

def shorten (a : Attribute) : Attribute := ⟨a.oid, asn1TagUtf8String, kept a⟩

/-- A shortened attribute fits. -/
theorem fits_shorten (a : Attribute) : Fits (shorten a) := ⟨(kept_fits a).1, (kept_fits a).2.2⟩

/-- It is accepted if the attribute was. -/
theorem accepted_shorten {a : Attribute} (h : Accepted a) : Accepted (shorten a) := ⟨h.1, rfl⟩

/-- It is kept as the attribute was. -/
theorem kept_shorten (a : Attribute) : kept (shorten a) = kept a := by
  obtain ⟨hlen, -, hzero⟩ := kept_fits a
  show ((kept a).take 127).takeWhile (· != 0) = kept a
  rw [List.take_of_length_le hlen, takeWhile_self hzero]

theorem entriesWith_shorten (f g : Attribute → List UInt8) (h : ∀ a, f (shorten a) = g a)
    (X : List (List Attribute)) (i : Nat) :
    entriesWith f i (X.map (·.map shorten)) = entriesWith g i X := by
  induction X generalizing i with
  | nil => rfl
  | cons rdn X ih =>
    rw [List.map_cons]
    unfold entriesWith
    rw [ih, List.map_map]
    congr 2
    funext a
    show (⟨a.oid, f (shorten a), i⟩ : NameEntry) = ⟨a.oid, g a, i⟩
    rw [h]

theorem length_flatMap_le {α : Type} {f g : α → List UInt8} {l : List α}
    (h : ∀ a ∈ l, (f a).length ≤ (g a).length) :
    (l.flatMap f).length ≤ (l.flatMap g).length := by
  induction l with
  | nil => exact Nat.le_refl _
  | cons a l ih =>
    obtain ⟨ha, hl⟩ := List.forall_mem_cons.mp h
    rw [List.flatMap_cons, List.flatMap_cons, List.length_append, List.length_append]
    exact Nat.add_le_add ha (ih hl)

/-- Shortening makes an encoding no longer. -/
theorem length_encode_shorten (a : Attribute) : (shorten a).encode.length ≤ a.encode.length := by
  have hvalue : (tlv asn1TagUtf8String (kept a)).length ≤ (tlv a.tag a.value).length :=
    length_tlv_mono (kept_fits a).2.1
  refine length_tlv_mono ?_
  rw [List.length_append, List.length_append]
  exact Nat.add_le_add_left hvalue _

/-- Nor that of a whole name. -/
theorem length_encodeName_shorten (X : List (List Attribute)) :
    (encodeName (X.map (·.map shorten))).length ≤ (encodeName X).length := by
  refine length_tlv_mono ?_
  rw [List.flatMap_map]
  refine length_flatMap_le fun rdn _ => length_tlv_mono ?_
  rw [List.flatMap_map]
  exact length_flatMap_le fun a _ => length_encode_shorten a

/-- `x509_check_name_match` compares the stored names. -/
theorem x509CheckNameMatch_iff {a b : List NameEntry} (hne : a ≠ [])
    (hmax : a.length ≤ x509MaxNameEntries) :
    x509CheckNameMatch a b = true ↔ a = b := by
  have hall : ∀ {a b : List NameEntry}, a.length = b.length →
      ((a.zip b).all (fun p => p.1.rdnIndex == p.2.rdnIndex && p.1.oid == p.2.oid && p.1.value == p.2.value) = true ↔
        a = b) := by
    intro a b hlen
    induction a generalizing b with
    | nil =>
      rw [List.length_eq_zero_iff.mp hlen.symm]
      exact ⟨fun _ => rfl, fun _ => rfl⟩
    | cons x a ih =>
      obtain _ | ⟨y, b⟩ := b
      · cases hlen
      rw [List.zip_cons_cons, List.all_cons, Bool.and_eq_true, ih (Nat.succ.inj hlen),
        List.cons.injEq]
      refine and_congr_left' ?_
      obtain ⟨oid, value, i⟩ := x
      obtain ⟨oid', value', i'⟩ := y
      simp only [Bool.and_eq_true, beq_iff_eq, NameEntry.mk.injEq]
      constructor
      · rintro ⟨⟨hi, ho⟩, hv⟩
        exact ⟨ho, hv, hi⟩
      · rintro ⟨ho, hv, hi⟩
        exact ⟨⟨hi, ho⟩, hv⟩
  have hpos := List.length_pos_iff.mpr hne
  unfold x509CheckNameMatch
  by_cases hlen : a.length = b.length
  · rw [Bool.and_eq_true]
    refine (and_congr_right' (hall hlen)).trans (and_iff_right ?_)
    simp only [Bool.and_eq_true, decide_eq_true_eq, beq_iff_eq]
    exact ⟨⟨⟨by omega, by omega⟩, hlen⟩, hmax⟩
  · constructor
    · intro htrue
      simp only [Bool.and_eq_true, beq_iff_eq] at htrue
      exact absurd htrue.1.1.2 hlen
    · rintro rfl
      exact absurd rfl hlen

/-- An encoding that is accepted holds accepted attributes. -/
theorem stored_cases {d : List UInt8} {p len : Nat} {X : List (List Attribute)}
    {name : List NameEntry} (hX : NameAt d p len X)
    (h : (x509ParseName d p len).result = some name) :
    (∀ rdn ∈ X, rdn ≠ [] ∧ ∀ a ∈ rdn, Accepted a) ∧ name = entriesWith kept 0 X ∧ name ≠ [] ∧
      name.length ≤ x509MaxNameEntries := by
  rw [x509ParseName_result hX] at h
  unfold storedRdns at h
  split at h
  · next hall =>
    obtain ⟨haccepted, hmax, hne⟩ := hall
    cases h
    rw [List.length_nil, Nat.zero_add] at hmax hne
    rw [List.nil_append]
    exact ⟨haccepted, rfl, List.length_pos_iff.mp hne, hmax⟩
  · cases h

/-- A stored name is the encoded one if and only if every attribute fits. -/
theorem entries_eq_iff {X : List (List Attribute)}
    (h : ∀ rdn ∈ X, rdn ≠ [] ∧ ∀ a ∈ rdn, Accepted a) :
    entriesWith kept 0 X = attributes X ↔ NameFits X :=
  entriesWith_congr.trans (forall₂_congr fun _ hrdn => forall₂_congr fun _ ha => kept_eq_iff ((h _ hrdn).2 _ ha))

/-- A name that does not fit has a shorter one that is stored alike. -/
theorem exists_shorter {d : List UInt8} {p len : Nat} {X : List (List Attribute)}
    {name : List NameEntry} (hX : NameAt d p len X)
    (h : (x509ParseName d p len).result = some name) :
    ∃ d' len' Y, NameAt d' 0 len' Y ∧ (x509ParseName d' 0 len').result = some name ∧ NameFits Y ∧
      attributes Y = name := by
  obtain ⟨haccepted, rfl, hne, hmax⟩ := stored_cases hX h
  have hY : NameAt (encodeName (X.map (·.map shorten))) 0 (encodeName (X.map (·.map shorten))).length (X.map (·.map shorten)) :=
    ⟨.self _, Nat.le_refl _, Nat.lt_of_le_of_lt (Nat.le_trans (length_encodeName_shorten X) hX.inside) hX.size⟩
  have hentries := entriesWith_shorten kept kept kept_shorten X 0
  refine ⟨_, _, _, hY, ?_, ?_, entriesWith_shorten Attribute.value kept (fun _ => rfl) X 0⟩
  · rw [x509ParseName_result hY]
    unfold storedRdns
    rw [hentries, if_pos]
    · rfl
    refine ⟨?_, by rw [List.length_nil, Nat.zero_add]; exact hmax, by
      rw [List.length_nil, Nat.zero_add]; exact List.length_pos_iff.mpr hne⟩
    intro rdn hrdn
    obtain ⟨rdn, hmem, rfl⟩ := List.mem_map.mp hrdn
    refine ⟨fun hnil => (haccepted rdn hmem).1 (List.map_eq_nil_iff.mp hnil), fun a ha => ?_⟩
    obtain ⟨a, hmem', rfl⟩ := List.mem_map.mp ha
    exact accepted_shorten ((haccepted rdn hmem).2 a hmem')
  · intro rdn hrdn a ha
    obtain ⟨rdn, -, rfl⟩ := List.mem_map.mp hrdn
    obtain ⟨a, -, rfl⟩ := List.mem_map.mp ha
    exact fits_shorten a

def encodedCommonName (X : List (List Attribute)) : Option (List UInt8) :=
  ((attributes X).find? fun entry => entry.oid == oidCommonName).map NameEntry.value

/-- A name that is read is the same as another one whose values fit only if it has the attributes of
that one: this is so if and only if its own values fit, and then the common name is the one that is
encoded. -/
theorem nameMatch_iff_fits (d : List UInt8) (p len : Nat) (X : List (List Attribute))
    (name : List NameEntry) (hX : NameAt d p len X)
    (h : (x509ParseName d p len).result = some name) :
    ((∀ d' p' len' Y name', NameAt d' p' len' Y → (x509ParseName d' p' len').result = some name' →
      NameFits Y →
      x509CheckNameMatch name name' = true → attributes X = attributes Y) ↔ NameFits X) ∧
    (NameFits X → ∀ maxLen, 128 ≤ maxLen →
      x509GetCommonName name maxLen = encodedCommonName X) := by
  obtain ⟨haccepted, rfl, hne, hmax⟩ := stored_cases hX h
  refine ⟨⟨fun hall => ?_, fun hfits => ?_⟩, fun hfits maxLen hlen => ?_⟩
  · obtain ⟨d', len', Y, hY, hparse, hfits, hattributes⟩ := exists_shorter hX h
    have hsame := hall d' 0 len' Y _ hY hparse hfits ((x509CheckNameMatch_iff hne hmax).mpr rfl)
    rw [hattributes] at hsame
    exact (entries_eq_iff haccepted).mp hsame.symm
  · intro d' p' len' Y name' hY hparse hfitsY hmatch
    obtain ⟨haccepted', rfl, -, -⟩ := stored_cases hY hparse
    have hsame := (x509CheckNameMatch_iff hne hmax).mp hmatch
    rw [(entries_eq_iff haccepted).mpr hfits, (entries_eq_iff haccepted').mpr hfitsY] at hsame
    exact hsame
  · have hentries := (entries_eq_iff haccepted).mpr hfits
    unfold x509GetCommonName encodedCommonName
    rw [if_neg (by omega), ← hentries]
    cases hfind : (entriesWith kept 0 X).find? fun entry => entry.oid == oidCommonName with
    | none => rfl
    | some entry =>
      obtain ⟨a, ha⟩ := value_of_mem (List.mem_of_find?_eq_some hfind)
      have hshort := (kept_fits a).1
      rw [Option.map_some, Option.map_some, ha, List.take_of_length_le (by omega)]

def commonName (value : List UInt8) : List (List Attribute) :=
  [[⟨oidCommonName, asn1TagUtf8String, value⟩]]

def bank : List UInt8 := [0x62, 0x61, 0x6E, 0x6B]

def bankName : List UInt8 := [0x30, 0x0F, 0x31, 0x0D, 0x30, 0x0B, 0x06, 0x03, 0x55, 0x04, 0x03, 0x0C, 0x04, 0x62, 0x61, 0x6E, 0x6B]

def zeroName : List UInt8 :=
  [0x30, 0x12, 0x31, 0x10, 0x30, 0x0E, 0x06, 0x03, 0x55, 0x04, 0x03, 0x0C, 0x07, 0x62, 0x61, 0x6E, 0x6B, 0x00, 0x2E, 0x78]

theorem bankName_at : NameAt bankName 0 bankName.length (commonName bank) :=
  ⟨by unfold HoldsAt; decide, by decide, by decide⟩

theorem zeroName_at : NameAt zeroName 0 zeroName.length (commonName (bank ++ [0x00, 0x2E, 0x78])) :=
  ⟨by unfold HoldsAt; decide, by decide, by decide⟩

def bankEntries : List NameEntry := [⟨oidCommonName, bank, 0⟩]

theorem bankName_result : (x509ParseName bankName 0 bankName.length).result = some bankEntries := by decide

theorem zeroName_result : (x509ParseName zeroName 0 zeroName.length).result = some bankEntries := by decide

/-- A common name that fits. -/
theorem nameMatch_iff_fits_bank :
    NameFits (commonName bank) ∧ ∀ d' p' len' Y name', NameAt d' p' len' Y →
    (x509ParseName d' p' len').result = some name' → NameFits Y →
      x509CheckNameMatch bankEntries name' = true →
      attributes (commonName bank) = attributes Y := by
  have hfits : NameFits (commonName bank) := by unfold NameFits Fits; decide
  exact ⟨hfits, (nameMatch_iff_fits bankName 0 bankName.length (commonName bank) bankEntries bankName_at bankName_result).1.mpr
    hfits⟩

/-- A name with a zero byte compares equal to the shorter one. -/
theorem not_nameMatch_exact :
    ¬ ∀ d p len X name d' p' len' Y name', NameAt d p len X →
      (x509ParseName d p len).result = some name →
      NameAt d' p' len' Y → (x509ParseName d' p' len').result = some name' →
      x509CheckNameMatch name name' = true →
      attributes X = attributes Y := by
  intro hall
  have hsame := hall _ _ _ _ _ _ _ _ _ _ bankName_at bankName_result zeroName_at zeroName_result (by decide)
  exact absurd hsame (by decide)

end Monios.Analysis.CertificateNames
