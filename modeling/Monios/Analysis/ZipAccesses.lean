import Monios.Analysis.InflateAccesses
import Monios.Analysis.ZipArchive
import Monios.Model.ZipAccess

/-!
# What the ZIP reader touches

`Contained` says of an archive and a capacity that opening it and extracting an entry read only the
archive, write only the output, and form no sum or difference of offsets that wraps around, and that
a size that is returned is the one in the directory, with the checksum of what was written.
-/

set_option autoImplicit false

namespace Monios.Analysis.ZipAccess

open Monios.Library Monios.Library.Traced Monios.Model Monios.Model.Crc32 Monios.Model.Zcomp Monios.Model.ZipAccess
open Monios.Model.Zip (ZipEntry ZipReader maxEntries nameMax methodStore methodDeflate)
open Monios.Model.Inflate (toInt)

def InBounds (size cap : Nat) : Event → Prop
  | .read i => i < size
  | .check i => i < cap
  | .write i => i < cap
  | .sum a b => a + b < 2 ^ 32
  | .diff a b => b ≤ a

abbrev Gives {α : Type} (size cap : Nat) (a : α) (m : Reader α) : Prop :=
  Answers (InBounds size cap) a m

section

variable {p : List UInt8} {cap : Nat}

/-- Two bytes inside the archive are read in range. -/
theorem rd16_gives {o : Nat} (h : o + 2 ≤ p.length) :
    Gives p.length cap (readU16 p o) (rd16 p o) := by
  unfold rd16
  exact .emit_bind (show o < p.length by omega) (.emit_bind (show o + 1 < p.length by omega) (.pure _))

/-- Four bytes inside the archive are read in range. -/
theorem rd32_gives {o : Nat} (h : o + 4 ≤ p.length) :
    Gives p.length cap (readU32 p o) (rd32 p o) := by
  unfold rd32
  exact .emit_bind (show o < p.length by omega) (.emit_bind (show o + 1 < p.length by omega)
    (.emit_bind (show o + 2 < p.length by omega) (.emit_bind (show o + 3 < p.length by omega) (.pure _))))

/-- A sum below 2^32 does not wrap. -/
theorem add_gives {size a b : Nat} (h : a + b < 2 ^ 32) : Gives size cap (a + b) (add a b) := by
  unfold add
  rw [Nat.mod_eq_of_lt h]
  exact .emit_bind h (.pure _)

/-- A difference of a smaller number does not wrap. -/
theorem sub_gives {size a b : Nat} (ha : a < 2 ^ 32) (h : b ≤ a) :
    Gives size cap (a - b) (sub a b) := by
  have hmod : (a + 2 ^ 32 - b) % 2 ^ 32 = a - b := by
    rw [show a + 2 ^ 32 - b = a - b + 2 ^ 32 by omega, Nat.add_mod_right]
    exact Nat.mod_eq_of_lt (by omega)
  unfold sub
  rw [hmod]
  exact .emit_bind h (.pure _)

/-- The look for the end record reads inside the archive. -/
theorem isEocd_gives (hp : p.length < 2 ^ 32) {i : Nat} (h : i + 22 ≤ p.length) :
    Gives p.length cap (Zip.isEocd p i) (isEocd p i) := by
  unfold isEocd
  apply Answers.bind (rd32_gives (by omega))
  by_cases hsignature : readU32 p i ≠ 0x06054b50
  · rw [if_pos hsignature, show Zip.isEocd p i = false by simp [Zip.isEocd, hsignature]]
    exact .pure _
  · rw [if_neg hsignature]
    rw [not_not] at hsignature
    rw [show Zip.isEocd p i = (readU16 p (i + 20) == p.length - i - 22) by simp [Zip.isEocd, hsignature]]
    apply Answers.bind (rd16_gives (by omega))
    apply Answers.bind (sub_gives hp (by omega))
    exact .bind (sub_gives (by omega) (by omega)) (.pure _)

/-- The scan for the end record reads inside the archive. -/
theorem scanEocd_gives (hp : p.length < 2 ^ 32) (limit : Nat) {i : Nat} (h : i + 22 ≤ p.length) :
    Gives p.length cap (Zip.scanEocd p limit i) (scanEocd p limit i) := by
  induction i with
  | zero =>
    unfold scanEocd Zip.scanEocd
    by_cases hlimit : limit = 0
    · rw [if_pos hlimit]
      exact .bind (isEocd_gives hp h) (.pure _)
    · rw [if_neg hlimit]
      exact .pure _
  | succ i ih =>
    unfold scanEocd Zip.scanEocd
    refine .ite (fun _ => ?_) fun _ => .pure _
    apply Answers.bind (isEocd_gives hp h)
    exact .ite (fun _ => .pure _) fun _ => ih (by omega)

theorem scanEocd_le (p : List UInt8) (limit i : Nat) : Zip.scanEocd p limit i ≤ i := by
  induction i with
  | zero => exact le_refl _
  | succ i ih =>
    unfold Zip.scanEocd
    split
    · split
      · exact le_refl _
      · omega
    · exact le_refl _

/-- So do the checks of the end record. -/
theorem goodEocd_gives (hp : p.length < 2 ^ 32) (limit : Nat) {i : Nat} (h : i + 22 ≤ p.length) :
    Gives p.length cap
      (!decide (i < limit ∨ readU32 p i ≠ 0x06054b50 ∨ readU16 p (i + 20) ≠ p.length - i - 22 ∨
        readU16 p (i + 4) ≠ 0 ∨
        readU16 p (i + 6) ≠ 0 ∨ readU16 p (i + 8) ≠ readU16 p (i + 10))) (goodEocd p limit i) := by
  unfold goodEocd
  by_cases hlimit : i < limit
  · simpa [hlimit] using Answers.pure _
  · rw [if_neg hlimit]
    apply Answers.bind (isEocd_gives hp h)
    by_cases hfound : Zip.isEocd p i = true
    · have hparts : readU32 p i = 0x06054b50 ∧ readU16 p (i + 20) = p.length - i - 22 := by
        simpa [Zip.isEocd] using hfound
      rw [hfound]
      simp only [Bool.not_true, Bool.false_eq_true, if_false]
      apply Answers.bind (rd16_gives (by omega))
      by_cases hdisk : readU16 p (i + 4) ≠ 0
      · simpa [hdisk] using Answers.pure _
      · rw [if_neg hdisk]
        apply Answers.bind (rd16_gives (by omega))
        by_cases hstart : readU16 p (i + 6) ≠ 0
        · simpa [hstart] using Answers.pure _
        · rw [if_neg hstart]
          apply Answers.bind (rd16_gives (by omega))
          apply Answers.bind (rd16_gives (by omega))
          rw [not_not] at hdisk hstart
          have heq : (!decide (i < limit ∨ readU32 p i ≠ 0x06054b50 ∨ readU16 p (i + 20) ≠ p.length - i - 22 ∨
              readU16 p (i + 4) ≠ 0 ∨ readU16 p (i + 6) ≠ 0 ∨ readU16 p (i + 8) ≠ readU16 p (i + 10))) =
              (readU16 p (i + 8) == readU16 p (i + 10)) := by
            simp [hlimit, hparts.1, hparts.2, hdisk, hstart]
            rfl
          rw [heq]
          exact .pure _
    · have hparts : ¬ (readU32 p i = 0x06054b50 ∧ readU16 p (i + 20) = p.length - i - 22) := by
        simpa [Zip.isEocd] using hfound
      rw [Bool.not_eq_true] at hfound
      rw [hfound]
      have hbad : i < limit ∨ readU32 p i ≠ 0x06054b50 ∨ readU16 p (i + 20) ≠ p.length - i - 22 ∨
          readU16 p (i + 4) ≠ 0 ∨
          readU16 p (i + 6) ≠ 0 ∨ readU16 p (i + 8) ≠ readU16 p (i + 10) := by
        by_cases hsignature : readU32 p i = 0x06054b50
        · exact Or.inr (Or.inr (Or.inl fun hcomment => hparts ⟨hsignature, hcomment⟩))
        · exact Or.inr (Or.inl hsignature)
      rw [decide_eq_true hbad]
      exact .pure _

theorem slice_succ {o : Nat} (h : o < p.length) (n : Nat) :
    slice p o (n + 1) = p.getD o 0 :: slice p (o + 1) n := by
  unfold slice
  rw [List.drop_eq_getElem_cons h, List.take_succ_cons, List.getD_eq_getElem?_getD,
    List.getElem?_eq_getElem h,
    Option.getD_some]

/-- The name of an entry is read inside the archive. -/
theorem readName_gives (hp : p.length < 2 ^ 32) (off rounds : Nat) {j : Nat} (name : List UInt8)
    (h : off + 46 + j + rounds ≤ p.length) : Gives p.length cap
      (if 0 ∈ slice p (off + 46 + j) rounds then none else some (name ++
        slice p (off + 46 + j) rounds))
      (readName p off rounds j name) := by
  induction rounds generalizing j name with
  | zero =>
    unfold readName slice
    simpa using Answers.pure _
  | succ rounds ih =>
    unfold readName
    apply Answers.bind (add_gives (by omega))
    apply Answers.bind (add_gives (by omega))
    refine .emit_bind (show off + 46 + j < p.length by omega) ?_
    rw [slice_succ (by omega)]
    by_cases hzero : p.getD (off + 46 + j) 0 = 0
    · rw [if_pos hzero, if_pos (by rw [hzero]; exact List.mem_cons_self)]
      exact .pure _
    · rw [if_neg hzero]
      have hrest := ih (j := j + 1) (name ++ [p.getD (off + 46 + j) 0]) (by omega)
      have hmem : 0 ∈ p.getD (off + 46 + j) 0 :: slice p (off + 46 + j + 1) rounds ↔
          0 ∈ slice p (off + 46 + (j + 1)) rounds := by
        rw [List.mem_cons, ← Nat.add_assoc]
        exact or_iff_right fun h => hzero h.symm
      simp only [hmem]
      rw [List.append_assoc, List.singleton_append, ← Nat.add_assoc] at hrest
      rw [← Nat.add_assoc]
      exact hrest

def recordOf (p : List UInt8) (cdEnd off : Nat) : Option (ZipEntry × Nat) :=
  let nlen := readU16 p (off + 28)
  let recordSize := 46 + nlen + readU16 p (off + 30) + readU16 p (off + 32)
  if recordSize < 46 ∨ recordSize > p.length - off ∨ recordSize > cdEnd - off then none
  else if nlen ≥ nameMax then none
  else
    let name := slice p (off + 46) nlen
    if 0 ∈ name then none
    else
      some
        ({ name := name
           method := readU16 p (off + 10)
           crc32 := readU32 p (off + 16)
           sizeCompressed := readU32 p (off + 20)
           sizeUncompressed := readU32 p (off + 24)
           localHeaderOffset := readU32 p (off + 42)
           isDirectory := name.getLast? == some Zip.slash },
          recordSize)

/-- The fixed part of a directory record is read inside the archive. -/
theorem readRecord_gives (hp : p.length < 2 ^ 32) {cdEnd off : Nat} (hoff : off + 46 ≤ cdEnd)
    (hend : cdEnd ≤ p.length) :
    Gives p.length cap (recordOf p cdEnd off) (readRecord p cdEnd off) := by
  have hnlen := InflateAccess.readU16_lt p (off + 28)
  have hxlen := InflateAccess.readU16_lt p (off + 30)
  have hclen := InflateAccess.readU16_lt p (off + 32)
  unfold readRecord recordOf
  apply Answers.bind (rd16_gives (by omega))
  apply Answers.bind (rd32_gives (by omega))
  apply Answers.bind (rd32_gives (by omega))
  apply Answers.bind (rd32_gives (by omega))
  apply Answers.bind (rd16_gives (by omega))
  apply Answers.bind (rd16_gives (by omega))
  apply Answers.bind (rd16_gives (by omega))
  apply Answers.bind (rd32_gives (by omega))
  apply Answers.bind (add_gives (by omega))
  apply Answers.bind (add_gives (by omega))
  apply Answers.bind (add_gives (by omega))
  simp only
  generalize readU16 p (off + 28) = nlen at *
  generalize readU16 p (off + 30) = xlen at *
  generalize readU16 p (off + 32) = clen at *
  have hbig : ¬ 46 + nlen + xlen + clen < 46 := by omega
  rw [if_neg hbig]
  apply Answers.bind (sub_gives hp (by omega))
  by_cases hroom : 46 + nlen + xlen + clen > p.length - off
  · rw [if_pos hroom, if_pos (Or.inr (Or.inl hroom))]
    exact .pure _
  · rw [if_neg hroom]
    apply Answers.bind (sub_gives (by omega) (by omega))
    by_cases hroom' : 46 + nlen + xlen + clen > cdEnd - off
    · rw [if_pos hroom', if_pos (Or.inr (Or.inr hroom'))]
      exact .pure _
    · rw [if_neg hroom', if_neg (by omega)]
      refine .ite (fun _ => .pure _) fun hshort => ?_
      apply Answers.bind (readName_gives hp off nlen [] (by omega))
      rw [Nat.add_zero, List.nil_append]
      by_cases hzero : 0 ∈ slice p (off + 46) nlen
      · rw [if_pos hzero, if_pos hzero]
        exact .pure _
      · rw [if_neg hzero, if_neg hzero]
        exact .pure _

/-- A directory record is read inside the archive. -/
theorem readEntry_gives (hp : p.length < 2 ^ 32) {cdOff cdSize : Nat} (off : Nat)
    (hend : cdOff + cdSize ≤ p.length) :
    Gives p.length cap (Zip.readEntry p (cdOff + cdSize) off) (readEntry p cdOff cdSize off) := by
  unfold readEntry
  apply Answers.bind (add_gives (by omega))
  by_cases hoff : off > cdOff + cdSize
  · rw [if_pos hoff, show Zip.readEntry p (cdOff + cdSize) off = none by
      unfold Zip.readEntry
      rw [if_pos (Or.inl hoff)]]
    exact .pure _
  · rw [if_neg hoff]
    apply Answers.bind (sub_gives (by omega) (by omega))
    by_cases hrest : cdOff + cdSize - off < 46
    · rw [if_pos hrest, show Zip.readEntry p (cdOff + cdSize) off = none by
        unfold Zip.readEntry
        rw [if_pos (Or.inr (Or.inl hrest))]]
      exact .pure _
    · rw [if_neg hrest]
      apply Answers.bind (rd32_gives (by omega))
      by_cases hsignature : readU32 p off ≠ 0x02014b50
      · rw [if_pos hsignature, show Zip.readEntry p (cdOff + cdSize) off = none by
          unfold Zip.readEntry
          rw [if_pos (Or.inr (Or.inr (Or.inl hsignature)))]]
        exact .pure _
      · rw [if_neg hsignature]
        apply Answers.bind (rd16_gives (by omega))
        by_cases hflags : readU16 p (off + 8) &&& 0x41 ≠ 0
        · rw [if_pos hflags, show Zip.readEntry p (cdOff + cdSize) off = none by
            unfold Zip.readEntry
            rw [if_pos (Or.inr (Or.inr (Or.inr (Or.inl hflags))))]]
          exact .pure _
        · rw [if_neg hflags]
          apply Answers.bind (rd16_gives (by omega))
          by_cases hdisk : readU16 p (off + 34) ≠ 0
          · rw [if_pos hdisk, show Zip.readEntry p (cdOff + cdSize) off = none by
              unfold Zip.readEntry
              rw [if_pos (Or.inr (Or.inr (Or.inr (Or.inr hdisk))))]]
            exact .pure _
          · rw [if_neg hdisk, show Zip.readEntry p (cdOff + cdSize) off = recordOf p (cdOff + cdSize) off by
              unfold Zip.readEntry
              rw [if_neg (by simp only [not_or]; exact ⟨hoff, hrest, hsignature, hflags, hdisk⟩)]
              rfl]
            exact readRecord_gives hp (by omega) hend

/-- A record that is accepted ends inside the directory. -/
theorem readEntry_size {cdEnd off size : Nat} {e : ZipEntry}
    (h : Zip.readEntry p cdEnd off = some (e, size)) :
    off + size ≤ cdEnd := by
  unfold Zip.readEntry at h
  split at h
  · cases h
  · simp only at h
    split at h
    · cases h
    · split at h
      · cases h
      · split at h
        · cases h
        · obtain ⟨-, rfl⟩ := Prod.mk.inj (Option.some.inj h)
          omega

/-- The records of the directory are read inside the archive. -/
theorem readEntriesFrom_gives (hp : p.length < 2 ^ 32) {cdOff cdSize : Nat}
    (hend : cdOff + cdSize ≤ p.length) (count off : Nat) (entries : List ZipEntry) :
    Gives p.length cap (Zip.readEntriesFrom p (cdOff + cdSize) count off entries)
      (readEntriesFrom p cdOff cdSize count off entries) := by
  induction count generalizing off entries with
  | zero => exact .pure _
  | succ count ih =>
    unfold readEntriesFrom Zip.readEntriesFrom
    apply Answers.bind (readEntry_gives hp off hend)
    cases hentry : Zip.readEntry p (cdOff + cdSize) off with
    | none => exact .pure _
    | some r =>
      obtain ⟨e, size⟩ := r
      have hsize := readEntry_size hentry
      exact .bind (add_gives (by omega)) (ih _ _)

/-- `zip_reader_open` reads inside the archive and gives what the plain model gives. -/
theorem zipReaderOpen_gives (data : Buffer) (cap : Nat) :
    Gives data.val.length cap (Zip.zipReaderOpen data) (zipReaderOpen data) := by
  have hp := data.property
  unfold zipReaderOpen Zip.zipReaderOpen
  refine .ite (fun _ => .pure _) fun hsize => ?_
  have hlimit : Gives data.val.length cap (if data.val.length > 65557 then data.val.length - 65557 else 0)
      (scanLimit data.val.length) :=
    .ite (fun h => sub_gives hp (by omega)) fun _ => .pure _
  apply Answers.bind hlimit
  apply Answers.bind (sub_gives hp (by omega))
  apply Answers.bind (scanEocd_gives hp _ (by omega))
  have hle := scanEocd_le data.val (if data.val.length > 65557 then data.val.length - 65557 else 0) (data.val.length - 22)
  generalize hlimitEq : (if data.val.length > 65557 then data.val.length - 65557 else 0) = limit at *
  simp only
  generalize Zip.scanEocd data.val limit (data.val.length - 22) = i at *
  apply Answers.bind (goodEocd_gives hp limit (by omega))
  by_cases hbad : i < limit ∨ readU32 data.val i ≠ 0x06054b50 ∨ readU16 data.val (i + 20) ≠ data.val.length - i - 22 ∨
      readU16 data.val (i + 4) ≠ 0 ∨ readU16 data.val (i + 6) ≠ 0 ∨ readU16 data.val (i + 8) ≠ readU16 data.val (i + 10)
  · rw [if_pos hbad, decide_eq_true hbad]
    exact .pure _
  · rw [if_neg hbad, decide_eq_false hbad]
    simp only [Bool.not_false, Bool.not_true, Bool.false_eq_true, if_false]
    apply Answers.bind (rd16_gives (by omega))
    apply Answers.bind (rd32_gives (by omega))
    apply Answers.bind (rd32_gives (by omega))
    refine .ite (fun _ => .pure _) fun _ => ?_
    generalize readU16 data.val (i + 10) = count
    generalize readU32 data.val (i + 12) = cdSize
    generalize readU32 data.val (i + 16) = cdOff
    by_cases hoff : cdOff > i
    · rw [if_pos hoff, if_pos (Or.inl hoff)]
      exact .pure _
    · rw [if_neg hoff]
      apply Answers.bind (sub_gives (by omega) (by omega))
      by_cases hroom : cdSize > i - cdOff
      · rw [if_pos hroom, if_pos (Or.inr hroom)]
        exact .pure _
      · rw [if_neg hroom, if_neg (by omega)]
        apply Answers.bind (readEntriesFrom_gives hp (by omega) count cdOff [])
        generalize Zip.readEntriesFrom data.val (cdOff + cdSize) count cdOff [] = r
        obtain ⟨ok, entries⟩ := r
        cases ok with
        | false => exact .pure _
        | true => exact .pure _

/-- The local header is read inside the archive. -/
theorem dataOffset_gives (hp : p.length < 2 ^ 32) (e : ZipEntry) :
    Gives p.length cap (Zip.dataOffset p e) (dataOffset p e) := by
  unfold dataOffset
  by_cases hoff : e.localHeaderOffset > p.length
  · rw [if_pos hoff, show Zip.dataOffset p e = none by
      unfold Zip.dataOffset
      rw [if_pos (Or.inl hoff)]]
    exact .pure _
  · rw [if_neg hoff]
    apply Answers.bind (sub_gives hp (by omega))
    by_cases hrest : p.length - e.localHeaderOffset < 30
    · rw [if_pos hrest, show Zip.dataOffset p e = none by
        unfold Zip.dataOffset
        rw [if_pos (Or.inr (Or.inl hrest))]]
      exact .pure _
    · rw [if_neg hrest]
      apply Answers.bind (rd32_gives (by omega))
      by_cases hsignature : readU32 p e.localHeaderOffset ≠ 0x04034b50
      · rw [if_pos hsignature, show Zip.dataOffset p e = none by
          unfold Zip.dataOffset
          rw [if_pos (Or.inr (Or.inr hsignature))]]
        exact .pure _
      · have hnlen := InflateAccess.readU16_lt p (e.localHeaderOffset + 26)
        have hxlen := InflateAccess.readU16_lt p (e.localHeaderOffset + 28)
        unfold Zip.dataOffset
        rw [if_neg hsignature, if_neg (by omega)]
        apply Answers.bind (rd16_gives (by omega))
        apply Answers.bind (rd16_gives (by omega))
        simp only
        generalize readU16 p (e.localHeaderOffset + 26) = nlen at *
        generalize readU16 p (e.localHeaderOffset + 28) = xlen at *
        apply Answers.bind (add_gives (by omega))
        apply Answers.bind (add_gives (by omega))
        apply Answers.bind (sub_gives hp (by omega))
        refine .ite (fun _ => .pure _) fun hvariable => ?_
        apply Answers.bind (add_gives (by omega))
        apply Answers.bind (sub_gives hp (by omega))
        exact .ite (fun _ => .pure _) fun _ => .pure _

/-- The data of an entry that is accepted end inside the archive. -/
theorem dataOffset_le {e : ZipEntry} {dataOff : Nat} (h : Zip.dataOffset p e = some dataOff) :
    dataOff + e.sizeCompressed ≤ p.length := by
  unfold Zip.dataOffset at h
  split at h
  · cases h
  · simp only at h
    split at h
    · cases h
    · split at h
      · cases h
      · obtain rfl := Option.some.inj h
        omega

section

variable {α β : Type} {size : Nat} {out : Zcomp.Memory} {Q : α → Zcomp.Memory → Prop} {Q' : β → Zcomp.Memory → Prop}

abbrev Within (size cap : Nat) (Q : α → Zcomp.Memory → Prop) (m : Reader α) (out : Zcomp.Memory) :
    Prop :=
  Ends (fun _ l _ => ∀ a ∈ l, InBounds size cap a) Q m out

theorem within_pure {a : α} (h : Q a out) : Within size cap Q (pure a) out := Ends.pure (by simp) h

/-- What one part stays within, the next one goes on from. -/
theorem within_bind {m : Reader α} {f : α → Reader β} (hm : Within size cap Q m out)
    (hf : ∀ a t, Q a t → Within size cap Q' (f a) t) : Within size cap Q' (m >>= f) out := by
  obtain ⟨hlog, hq⟩ := hm
  obtain ⟨hlog', hq'⟩ := hf _ _ hq
  exact ⟨List.forall_mem_append.mpr ⟨hlog, hlog'⟩, hq'⟩

/-- A part that only reads, before the rest. -/
theorem within_gives {m : Reader α} {f : α → Reader β} {a : α} (hm : Gives size cap a m)
    (hf : Within size cap Q' (f a) out) : Within size cap Q' (m >>= f) out := by
  obtain ⟨l, hl, hin⟩ := hm out
  have hends : Within size cap (fun b t => b = a ∧ t = out) m out := Ends.of_eq hl hin ⟨rfl, rfl⟩
  refine within_bind hends ?_
  rintro b t ⟨rfl, rfl⟩
  exact hf

end

/-- Reading the output back stays inside it. -/
theorem readOut_gives {size : Nat} (rounds i : Nat) (h : i + rounds ≤ cap) :
    Gives size cap () (readOut rounds i) := by
  induction rounds generalizing i with
  | zero => exact .pure _
  | succ rounds ih =>
    unfold readOut
    exact .emit_bind (show i < cap by omega) (ih (i + 1) (by omega))

/-- A stored entry is copied from inside the archive to inside the output. -/
theorem copyStored_gives {size dataOff : Nat} (data : List UInt8) (rounds i : Nat)
    (hdata : dataOff + i + rounds ≤ size) (hout : i + rounds ≤ cap) :
    Gives size cap () (copyStored data dataOff rounds i) := by
  induction rounds generalizing i with
  | zero => exact .pure _
  | succ rounds ih =>
    unfold copyStored
    exact .emit_bind (show dataOff + i < size by omega) (.emit_bind (show i < cap by omega)
      (ih (i + 1) (by omega) (by omega)))

def Checked (e : ZipEntry) (n : Int) (out : Zcomp.Memory) : Prop :=
  0 ≤ n → n = e.sizeUncompressed ∧ (crc32Buf (load out 0 e.sizeUncompressed)).toNat = e.crc32

/-- The checks of an expanded entry read inside the output. -/
theorem checkExpanded_within {size : Nat} {e : ZipEntry} (he : e.sizeUncompressed ≤ cap)
    {expanded : Int} (hlow : -2 ^ 31 ≤ expanded) (hhigh : expanded < 2 ^ 31) (out : Zcomp.Memory) :
    Within size cap (Checked e) (checkExpanded e expanded) out := by
  unfold checkExpanded
  refine Ends.ite (fun _ => within_pure fun h => absurd h (by decide)) fun hsize => ?_
  rw [not_not] at hsize
  apply within_gives (readOut_gives _ 0 (by omega))
  apply Ends.reads_bind
  refine Ends.ite (fun _ => within_pure fun h => absurd h (by decide)) fun hcrc => ?_
  rw [not_not, hsize] at hcrc
  exact within_pure fun hnonneg => ⟨by omega, hcrc⟩

def SumFits : InflateAccess.Access → Prop
  | .header pos => pos + 4 < 2 ^ 32
  | .contents pos len _ => pos + len < 2 ^ 32
  | _ => True

/-- A sum that fits is a stored block that fits. -/
theorem SumFits.storedFits {a : InflateAccess.Access} (h : SumFits a) :
    Analysis.InflateAccess.StoredFits a := by
  cases a with
  | header pos => exact h
  | contents pos len room => exact fun _ => h
  | input i => trivial
  | exhausted => trivial
  | table i => trivial
  | copied i => trivial
  | output i => trivial

theorem length_entryData {data : Buffer} {e : ZipEntry} {dataOff : Nat}
    (h : dataOff + e.sizeCompressed ≤ data.val.length) :
    (entryData data e dataOff).val.length = e.sizeCompressed := by
  simp only [entryData, slice, List.length_take, List.length_drop]
  omega

/-- An access of the decoder is one of the archive, moved by the offset of the data. -/
theorem accessAt_inBounds {size dataOff n : Nat} (hle : dataOff + n ≤ size)
    {a : InflateAccess.Access} (hfits : SumFits a) (hin : Analysis.InflateAccess.InRange n cap a) :
    ∀ b ∈ accessAt dataOff a, InBounds size cap b := by
  intro b hb
  cases a with
  | input i =>
    rw [List.mem_singleton.mp hb]
    have hi : i < n := hin
    show dataOff + i < size
    omega
  | copied i =>
    rw [List.mem_singleton.mp hb]
    exact hin
  | output i =>
    rw [List.mem_singleton.mp hb]
    exact hin
  | header pos =>
    rw [List.mem_singleton.mp hb]
    exact hfits
  | contents pos len room =>
    rw [List.mem_singleton.mp hb]
    exact hfits
  | exhausted => exact absurd hb List.not_mem_nil
  | table i => exact absurd hb List.not_mem_nil

theorem toInt_bounds (n : Nat) : -2 ^ 31 ≤ toInt n ∧ toInt n < 2 ^ 31 := by
  unfold toInt
  rw [Int.bmod_def]
  omega

/-- The result of `inflate_raw` is an int. -/
theorem inflateRaw_bounds {limit : Nat} {src : Buffer} {out : Zcomp.Memory} {outCap : UInt32}
    {n : Int} (h : InflateAccess.inflateRaw limit src out outCap = some n) :
    -2 ^ 31 ≤ n ∧ n < 2 ^ 31 := by
  unfold InflateAccess.inflateRaw at h
  split at h
  · exact absurd h (by simp)
  · obtain rfl := Option.some.inj h
    decide
  · obtain rfl := Option.some.inj h
    exact toInt_bounds _

end

/-- Opening and extracting stay within the archive and the output without a sum that wraps around,
and a size that is returned is the one of the entry, with its checksum. -/
structure Contained (data : Buffer) (index : Nat) (out : Zcomp.Memory) (outCap : UInt32) : Prop where
  opens : ∀ a ∈ (zipReaderOpen data).log out, InBounds data.val.length outCap.toNat a
  extracts : ∀ limit, ∀ a ∈ (zipReaderExtract limit ((zipReaderOpen data).result out).2 index outCap).log out,
    InBounds data.val.length outCap.toNat a
  checked : ∀ limit n, (zipReaderExtract limit ((zipReaderOpen data).result out).2 index outCap).result out = some n → 0 ≤ n →
    ∃ e, ((zipReaderOpen data).result out).2.entries[index]? = some e ∧
      Checked e n ((zipReaderExtract limit ((zipReaderOpen data).result out).2 index outCap).state out)

def inflated (data : Buffer) (index : Nat) (outCap : UInt32) : Option (ZipEntry × Nat) :=
  let z := (Zip.zipReaderOpen data).2
  if z.ok then
    (z.entries[index]?).bind fun e =>
      if e.sizeUncompressed ≤ outCap.toNat ∧ e.sizeUncompressed ≤ 0x7FFFFFFF ∧ e.method = methodDeflate then
        (Zip.dataOffset data.val e).map fun dataOff => (e, dataOff)
      else none
  else none

def SumsFit (data : Buffer) (index : Nat) (out : Zcomp.Memory) (outCap : UInt32) : Prop :=
  ∀ e dataOff, inflated data index outCap = some (e, dataOff) →
    ∀ limit, ∀ a ∈ InflateAccess.inflateLog limit (entryData data e dataOff) out outCap, SumFits a

theorem zipReaderOpen_data (data : Buffer) : (Zip.zipReaderOpen data).2.data = data := by
  unfold Zip.zipReaderOpen
  dsimp only
  generalize Zip.scanEocd data.val (if data.val.length > 65557 then data.val.length - 65557 else 0)
    (data.val.length - 22) = i
  generalize (if data.val.length > 65557 then data.val.length - 65557 else 0) = limit
  generalize readU32 data.val i = signature
  generalize readU16 data.val (i + 10) = count
  generalize readU32 data.val (i + 12) = cdSize
  generalize readU32 data.val (i + 16) = cdOff
  generalize Zip.readEntriesFrom data.val (cdOff + cdSize) count cdOff [] = r
  split
  · rfl
  · split
    · rfl
    · split
      · rfl
      · split
        · rfl
        · split
          · rfl
          · rfl

/-- When an entry is inflated, and from where. -/
theorem inflated_eq {data : Buffer} {index : Nat} {outCap : UInt32} {e : ZipEntry} {dataOff : Nat}
    (h : inflated data index outCap = some (e, dataOff)) :
    (Zip.zipReaderOpen data).2.ok = true ∧ (Zip.zipReaderOpen data).2.entries[index]? = some e ∧
      e.sizeUncompressed ≤ outCap.toNat ∧ e.sizeUncompressed ≤ 0x7FFFFFFF ∧
      e.method = methodDeflate ∧
      Zip.dataOffset data.val e = some dataOff := by
  unfold inflated at h
  simp only at h
  split at h
  · next hok =>
      obtain ⟨e', he', h⟩ := Option.bind_eq_some_iff.mp h
      split at h
      · next hsize =>
          obtain ⟨dataOff', hoff, heq⟩ := Option.map_eq_some_iff.mp h
          obtain ⟨rfl, rfl⟩ := Prod.mk.inj heq
          exact ⟨hok, he', hsize.1, hsize.2.1, hsize.2.2, hoff⟩
      · cases h
  · cases h

theorem zipReaderOpen_result (data : Buffer) (out : Zcomp.Memory) :
    (zipReaderOpen data).result out = Zip.zipReaderOpen data := by
  obtain ⟨l, hl, -⟩ := zipReaderOpen_gives data 0 out
  exact result_of_eq hl

/-- `zip_reader_extract` stays within archive and output when the sums fit. -/
theorem zipReaderExtract_within {data : Buffer} {index : Nat} {out : Zcomp.Memory} {outCap : UInt32}
    (hfits : SumsFit data index out outCap) (limit : Nat) : Within data.val.length outCap.toNat
      (fun r t => ∀ n, r = some n → 0 ≤ n →
        ∃ e, (Zip.zipReaderOpen data).2.entries[index]? = some e ∧ Checked e n t)
      (zipReaderExtract limit (Zip.zipReaderOpen data).2 index outCap) out := by
  have hp := data.property
  have hdata := zipReaderOpen_data data
  have hfail : ∀ {n : Int} {P : Prop}, some (-1) = some n → 0 ≤ n → P := by
    intro n P hn hnonneg
    obtain rfl := Option.some.inj hn
    exact absurd hnonneg (by decide)
  unfold zipReaderExtract
  refine Ends.ite (fun _ => within_pure fun n hn hnonneg => hfail hn hnonneg) fun hok => ?_
  cases hentry : (Zip.zipReaderOpen data).2.entries[index]? with
  | none => exact within_pure fun n hn hnonneg => hfail hn hnonneg
  | some e =>
    refine Ends.ite (fun _ => within_pure fun n hn hnonneg => hfail hn hnonneg) fun hsize => ?_
    rw [not_or, Nat.not_lt, Nat.not_lt] at hsize
    rw [hdata]
    apply within_gives (dataOffset_gives hp e)
    cases hoff : Zip.dataOffset data.val e with
    | none => exact within_pure fun n hn hnonneg => hfail hn hnonneg
    | some dataOff =>
      have hle := dataOffset_le hoff
      refine Ends.ite (fun _ => ?_) fun _ => Ends.ite (fun hmethod => ?_) fun _ =>
        within_pure fun n hn hnonneg => hfail hn hnonneg
      · refine Ends.ite (fun _ => within_pure fun n hn hnonneg => hfail hn hnonneg) fun hroom => ?_
        apply within_gives (copyStored_gives data.val e.sizeCompressed 0 (by omega) (by omega))
        have hstore : Within data.val.length outCap.toNat (fun _ _ => True)
            (modifies fun out => store out 0 (slice data.val dataOff e.sizeCompressed)) out := ⟨by simp, trivial⟩
        refine within_bind hstore fun _ t _ => ?_
        obtain ⟨hlow, hhigh⟩ := toInt_bounds e.sizeCompressed
        refine within_bind (checkExpanded_within hsize.1 hlow hhigh t) fun r u hr =>
          within_pure fun n hn hnonneg => ?_
        obtain rfl := Option.some.inj hn
        exact ⟨e, rfl, hr⟩
      · have hin : inflated data index outCap = some (e, dataOff) := by
          rw [Bool.not_eq_false] at hok
          simp [inflated, hok, hentry, hsize, hmethod, hoff]
        have hsums := hfits e dataOff hin limit
        have hlength := length_entryData hle
        have haccesses := (Analysis.InflateAccess.inflateRaw_does limit (entryData data e dataOff) out outCap).1.accesses.mpr
          fun a ha => (hsums a ha).storedFits
        rw [hlength] at haccesses
        have hinflate : Within data.val.length outCap.toNat
            (fun r _ => r = InflateAccess.inflateRaw limit (entryData data e dataOff) out outCap)
            (inflateEntry limit data e dataOff outCap) out := by
          refine ⟨fun b hb => ?_, rfl⟩
          obtain ⟨a, ha, hab⟩ := List.mem_flatMap.mp hb
          exact accessAt_inBounds hle (hsums a ha) (haccesses a ha) b hab
        refine within_bind hinflate ?_
        rintro r t hr
        cases r with
        | none => exact within_pure fun n hn => by cases hn
        | some expanded =>
          obtain ⟨hlow, hhigh⟩ := inflateRaw_bounds hr.symm
          refine Ends.ite (fun _ => within_pure fun n hn hnonneg => hfail hn hnonneg) fun _ => ?_
          refine within_bind (checkExpanded_within hsize.1 hlow hhigh t) fun r u hr =>
            within_pure fun n hn hnonneg => ?_
          obtain rfl := Option.some.inj hn
          exact ⟨e, rfl, hr⟩

/-- The accesses of the decoder are accesses of the call. -/
theorem mem_zipReaderExtract_log {data : Buffer} {index : Nat} {out : Zcomp.Memory}
    {outCap : UInt32} {e : ZipEntry} {dataOff : Nat}
    (h : inflated data index outCap = some (e, dataOff)) (limit : Nat) {a : InflateAccess.Access}
    (ha : a ∈ InflateAccess.inflateLog limit (entryData data e dataOff) out outCap) {b : Event}
    (hb : b ∈ accessAt dataOff a) :
    b ∈ (zipReaderExtract limit (Zip.zipReaderOpen data).2 index outCap).log out := by
  obtain ⟨hok, hentry, hcap, h31, hmethod, hoff⟩ := inflated_eq h
  obtain ⟨l, hl, -⟩ := @dataOffset_gives data.val 0 data.property e out
  have hdeflate : ¬ e.method = methodStore := by
    rw [hmethod]
    decide
  rw [hoff] at hl
  have hmem : b ∈ (inflateEntry limit data e dataOff outCap).log out :=
    List.mem_flatMap.mpr ⟨a, ha, hb⟩
  unfold zipReaderExtract
  rw [if_neg (by simp [hok]), hentry]
  dsimp only
  rw [if_neg (by omega), zipReaderOpen_data, log_bind, result_of_eq hl, state_of_eq hl]
  dsimp only
  rw [if_neg hdeflate, if_pos hmethod, log_bind]
  exact List.mem_append_right _ (List.mem_append_left _ hmem)

/-- The reader stays within its bounds on exactly those archives whose compressed data have no
stored block for which a sum wraps around. -/
theorem contained_iff (data : Buffer) (index : Nat) (out : Zcomp.Memory) (outCap : UInt32) :
    Contained data index out outCap ↔ SumsFit data index out outCap := by
  have hopen := zipReaderOpen_result data out
  constructor
  · intro h e dataOff hin limit a ha
    have hextract := h.extracts limit
    rw [hopen] at hextract
    cases a with
    | header pos =>
      exact hextract (.sum pos 4) (mem_zipReaderExtract_log hin limit ha List.mem_cons_self)
    | contents pos len room =>
      exact hextract (.sum pos len) (mem_zipReaderExtract_log hin limit ha List.mem_cons_self)
    | input i => trivial
    | exhausted => trivial
    | table i => trivial
    | copied i => trivial
    | output i => trivial
  · intro h
    refine ⟨?_, fun limit => ?_, fun limit n hn hnonneg => ?_⟩
    · obtain ⟨l, hl, hin⟩ := zipReaderOpen_gives data outCap.toNat out
      rw [log_of_eq hl]
      exact hin
    · rw [hopen]
      exact (zipReaderExtract_within h limit).1
    · rw [hopen] at hn ⊢
      exact (zipReaderExtract_within h limit).2 n hn hnonneg

open Analysis.Zip (File localRecord entryOf cdRecord Fits)
open Analysis.InflateAccess (zeroBlocks length_zeroBlocks)

section

variable {n : Nat}

def hostileData (n : Nat) : List UInt8 := zeroBlocks n ++ [0x00, 0xFF, 0xFF, 0x00, 0x00]

theorem length_hostileData (n : Nat) : (hostileData n).length = 5 * n + 5 := by
  rw [hostileData, List.length_append, length_zeroBlocks]
  rfl

/-- The hostile data make the decoder read behind its source. -/
theorem input_mem_hostileData (hn : 5 * n + 5 < 2 ^ 32) (hwrap : 2 ^ 32 ≤ 5 * n + 5 + 65535)
    (limit : Nat) (out : Out) {cap : Nat} (hcap : cap < 2 ^ 32) (hroom : out.o + 65535 ≤ cap)
    {k : Nat} (hk : k < 65535) (hlt : 5 * n + 5 + k < 2 ^ 32) :
    InflateAccess.Access.input (5 * n + 5 + k) ∈
      (InflateAccess.inflateFrom limit cap (1 + n)).log
        (Analysis.InflateAccess.atByte (hostileData n) 0 out) := by
  have hlength := length_hostileData n
  have hbytes (o : Nat) : readU16 (hostileData n) (5 * n + o) = readU16 [0x00, 0xFF, 0xFF, 0x00, 0x00] o := by
    rw [← length_zeroBlocks n]
    exact readU16_append _ _ _
  have hzero : byteAt (hostileData n) (5 * n) = 0 := by
    have hget := getD_append_add (zeroBlocks n) [0x00, 0xFF, 0xFF, 0x00, 0x00] 0
    rw [length_zeroBlocks, Nat.add_zero] at hget
    rw [byteAt, hostileData, hget]
    rfl
  have hlen : readU16 (hostileData n) (5 * n + 1) = 65535 := (hbytes 1).trans (by decide)
  have hnlen : readU16 (hostileData n) (5 * n + 1 + 2) = 0 := (hbytes 3).trans (by decide)
  have hnext : (5 * n + 1 + 4) % 2 ^ 32 = 5 * n + 5 := Nat.mod_eq_of_lt (by omega)
  have hmod : (5 * n + 5 + 65535) % 2 ^ 32 = 5 * n + 5 + 65535 - 2 ^ 32 := by
    rw [Nat.mod_eq_sub_mod hwrap]
    exact Nat.mod_eq_of_lt (by omega)
  have hroomEq : (cap + 2 ^ 32 - out.o) % 2 ^ 32 = cap - out.o := by
    rw [show cap + 2 ^ 32 - out.o = cap - out.o + 2 ^ 32 by omega, Nat.add_mod_right]
    exact Nat.mod_eq_of_lt (by omega)
  have hblock : InflateAccess.Access.input (5 * n + 5 + k) ∈
      (InflateAccess.storedBlock cap).log (Analysis.InflateAccess.behindHeader (hostileData n) (5 * n) out) := by
    obtain ⟨-, -, hlog⟩ := @Analysis.InflateAccess.storedBlock_passed cap
      (Analysis.InflateAccess.behindHeader (hostileData n) (5 * n) out) (by
        simp only [Analysis.InflateAccess.behindHeader, hnext]
        omega)
    obtain ⟨-, -, hcopy⟩ := @Analysis.InflateAccess.copyStored_spec
      (Analysis.InflateAccess.atByte (hostileData n) (5 * n + 5) out) 65535 (by simp only [Analysis.InflateAccess.atByte]; omega)
      (by simp only [Analysis.InflateAccess.atByte]; omega)
    have hmem := (hcopy (.input (5 * n + 5 + k))).mpr
      ⟨k, hk, Or.inl (by simp only [Analysis.InflateAccess.atByte]; rw [Nat.mod_eq_of_lt hlt])⟩
    have hin : ¬ (hostileData n).length < (5 * n + 5 + 65535) % 2 ^ 32 := by omega
    have hsmall : ¬ cap - out.o < 65535 := by omega
    have hsum : ¬ (65535 + 0 ≠ 0xFFFF) := by decide
    rw [hlog]
    refine List.mem_append_right _ ?_
    simp only [Analysis.InflateAccess.behindHeader, Analysis.InflateAccess.advanced, hlen, hnlen,
      hnext, hroomEq,
      InflateAccess.storedContents, hsum, log_bind, result_reads, state_reads, log_reads, state_emit, log_emit, id_eq, hin,
      hsmall, if_false, gt_iff_lt, List.mem_append]
    exact Or.inr (Or.inr (Or.inl hmem))
  have hend := Analysis.InflateAccess.mem_inflateFrom_of_stored (show 5 * n < (hostileData n).length by omega) hzero limit cap 0
    hblock
  have hall := Analysis.InflateAccess.inflateFrom_zeroBlocks [0x00, 0xFF, 0xFF, 0x00, 0x00]
    (by simp only [List.length_cons, List.length_nil]; omega) limit cap out 1 n (le_refl _) hend
  rw [Nat.sub_self] at hall
  exact hall

def hostileFile (hn : 5 * n + 103 < 2 ^ 32) : File :=
  ⟨⟨[], zero_notMem_nil⟩, ⟨hostileData n, by rw [length_hostileData]; omega⟩⟩

def hostileEntry (hn : 5 * n + 103 < 2 ^ 32) : ZipEntry :=
  { entryOf 0 (hostileFile hn) with method := methodDeflate, sizeUncompressed := 0 }

theorem length_hostileRecord (hn : 5 * n + 103 < 2 ^ 32) :
    (localRecord (hostileFile hn)).length = 5 * n + 35 := by
  rw [Analysis.Zip.length_localRecord]
  simp only [hostileFile, length_hostileData, List.length_nil]
  omega

theorem length_hostileDirectory (hn : 5 * n + 103 < 2 ^ 32) :
    ([hostileEntry hn].flatMap cdRecord).length = 46 := by
  rw [List.flatMap_cons, List.flatMap_nil, List.append_nil, Analysis.Zip.length_cdRecord]
  rfl

def hostileArchive (hn : 5 * n + 103 < 2 ^ 32) : Buffer :=
  ⟨localRecord (hostileFile hn) ++ ([hostileEntry hn].flatMap cdRecord ++
      Zip.eocd [hostileEntry hn].length ([hostileEntry hn].flatMap cdRecord).length (localRecord (hostileFile hn)).length), by
    rw [List.length_append, List.length_append, length_hostileRecord, length_hostileDirectory,
      Analysis.Zip.length_eocd]
    omega⟩

theorem length_hostileArchive (hn : 5 * n + 103 < 2 ^ 32) :
    (hostileArchive hn).val.length = 5 * n + 103 := by
  simp only [hostileArchive]
  rw [List.length_append, List.length_append, length_hostileRecord, length_hostileDirectory,
    Analysis.Zip.length_eocd]

theorem fits_hostileEntry (hn : 5 * n + 103 < 2 ^ 32) : Fits (hostileEntry hn) := by
  refine ⟨show 0 < nameMax by decide, by simp [hostileEntry, entryOf, hostileFile],
    show methodDeflate < 2 ^ 16 by decide,
    UInt32.toNat_lt _, ?_, show 0 < 2 ^ 32 by decide, show 0 < 2 ^ 32 by decide, rfl⟩
  simp only [hostileEntry, entryOf, hostileFile, length_hostileData]
  omega

/-- The entry of the hostile archive passes all checks and is inflated. -/
theorem inflated_hostileArchive (hn : 5 * n + 103 < 2 ^ 32) (outCap : UInt32) :
    inflated (hostileArchive hn) 0 outCap = some (hostileEntry hn, 30) ∧
      (entryData (hostileArchive hn) (hostileEntry hn) 30).val = hostileData n := by
  have hopen := @Analysis.Zip.zipReaderOpen_directory (localRecord (hostileFile hn)) [hostileEntry hn] (hostileArchive hn) rfl
    (show 1 ≤ maxEntries by decide) (by simpa using fits_hostileEntry hn)
  obtain ⟨hoffset, hslice⟩ := @Analysis.Zip.dataOffset_localRecord (hostileArchive hn).val [] (hostileFile hn)
    ([hostileEntry hn].flatMap cdRecord ++
      Zip.eocd [hostileEntry hn].length ([hostileEntry hn].flatMap cdRecord).length (localRecord (hostileFile hn)).length)
    rfl (show 0 < nameMax by decide)
  have hoffset' : Zip.dataOffset (hostileArchive hn).val (hostileEntry hn) = some 30 := hoffset
  refine ⟨?_, hslice⟩
  have hsize : (hostileEntry hn).sizeUncompressed = 0 := rfl
  have hmethod : (hostileEntry hn).method = methodDeflate := rfl
  unfold inflated
  rw [hopen]
  simp [hoffset', hsize, hmethod]

end

theorem hostileSize : 5 * 858980352 + 103 < 2 ^ 32 := by decide

/-- For the hostile archive an access is outside. -/
theorem not_contained_hostileArchive : (hostileArchive hostileSize).val.length = 4294901863 ∧
      (∃ limit, Event.read 4294901863 ∈
        (zipReaderExtract limit (Zip.zipReaderOpen (hostileArchive hostileSize)).2 0 65535).log fun _ => 0) ∧
      ¬ Contained (hostileArchive hostileSize) 0 (fun _ => 0) 65535 := by
  have hlength : (hostileArchive hostileSize).val.length = 4294901863 :=
    length_hostileArchive hostileSize
  obtain ⟨hinflated, hdata⟩ := inflated_hostileArchive hostileSize 65535
  have hinput := input_mem_hostileData (n := 858980352) (by decide) (by decide) (1 + 858980352) ⟨0, fun _ => 0⟩ (by decide)
    (show 0 + 65535 ≤ (65535 : UInt32).toNat by decide) (show 68 < 65535 by decide) (by decide)
  have hlog : InflateAccess.Access.input (5 * 858980352 + 5 + 68) ∈ InflateAccess.inflateLog (1 + 858980352)
      (entryData (hostileArchive hostileSize) (hostileEntry hostileSize) 30) (fun _ => 0) 65535 := by
    unfold InflateAccess.inflateLog InflateAccess.start
    rw [hdata]
    exact hinput
  have hread := mem_zipReaderExtract_log hinflated (1 + 858980352) hlog List.mem_cons_self
  refine ⟨hlength, ⟨_, hread⟩, fun h => ?_⟩
  have hin := h.extracts (1 + 858980352)
  rw [zipReaderOpen_result] at hin
  have hlt : 30 + (5 * 858980352 + 5 + 68) < (hostileArchive hostileSize).val.length := hin _ hread
  rw [hlength] at hlt
  exact absurd hlt (by decide)

end Monios.Analysis.ZipAccess
