import Mathlib.Data.List.Flatten
import Monios.Model.Zip

/-!
# ZIP archives

The round trip: what the writer wrote, the reader opens, with the names of the files in their order,
and extracts to the bytes of the files. The writer's side comes first: a file adds a local record,
the end adds the directory and the end record (`addFiles_spec`, `pushDirectory_spec`).
-/

set_option autoImplicit false

namespace Monios.Analysis.Zip

open Monios.Library Monios.Model Monios.Model.Crc32 Monios.Model.Zcomp Monios.Model.Inflate Monios.Model.Zip

structure File where
  name : CString
  data : Buffer

def addFiles (w : ZipWriter) : List File → Option ZipWriter
  | [] => some w
  | f :: files => (zipWriterAddFile w f.name f.data).bind fun w => addFiles w files

def File.crc (f : File) : Nat := (crc32Buf f.data.val).toNat

def localRecord (f : File) : List UInt8 :=
  localHeader f.name.val.length f.crc f.data.val.length ++ (f.name.val ++ f.data.val)

def entryOf (off : Nat) (f : File) : ZipEntry :=
  { name := f.name.val
    method := methodStore
    crc32 := f.crc
    sizeCompressed := f.data.val.length
    sizeUncompressed := f.data.val.length
    localHeaderOffset := off
    isDirectory := f.name.val.getLast? == some Zip.slash }

def entriesFrom (off : Nat) : List File → List ZipEntry
  | [] => []
  | f :: files => entryOf off f :: entriesFrom (off + (localRecord f).length) files

def cdRecord (e : ZipEntry) : List UInt8 := cdEntry e ++ e.name

/-- A local header has 30 bytes. -/
@[simp] theorem length_localHeader (nlen crc size : Nat) :
    (localHeader nlen crc size).length = 30 := rfl

/-- An entry of the directory has 46 bytes. -/
@[simp] theorem length_cdEntry (e : ZipEntry) : (cdEntry e).length = 46 := rfl

/-- The end record has 22 bytes. -/
@[simp] theorem length_eocd (count cdSize cdStart : Nat) :
    (eocd count cdSize cdStart).length = 22 := rfl

/-- A local record, counted. -/
theorem length_localRecord (f : File) :
    (localRecord f).length = 30 + f.name.val.length + f.data.val.length := by
  unfold localRecord
  simp only [List.length_append, length_localHeader]
  omega

/-- A record of the directory, counted. -/
theorem length_cdRecord (e : ZipEntry) : (cdRecord e).length = 46 + e.name.length := by
  unfold cdRecord
  rw [List.length_append, length_cdEntry]

/-- The entries have the names of the files. -/
theorem map_name_entriesFrom (off : Nat) (files : List File) :
    (entriesFrom off files).map (·.name) = files.map (·.name.val) := by
  induction files generalizing off with
  | nil => rfl
  | cons f files ih =>
    unfold entriesFrom
    rw [List.map_cons, List.map_cons, ih]
    rfl

/-- There is an entry for each file. -/
theorem length_entriesFrom (off : Nat) (files : List File) :
    (entriesFrom off files).length = files.length := by
  have h := congrArg List.length (map_name_entriesFrom off files)
  rwa [List.length_map, List.length_map] at h

/-- The entry of a file points to its record. -/
theorem getElem?_entriesFrom {off i : Nat} {files : List File} {f : File} (h : files[i]? = some f) :
    ∃ front back, files.flatMap localRecord = front ++ (localRecord f ++ back) ∧
      (entriesFrom off files)[i]? = some (entryOf (off + front.length) f) := by
  induction files generalizing off i with
  | nil => exact absurd h (by simp)
  | cons g files ih =>
    cases i with
    | zero =>
      obtain rfl : g = f := by simpa using h
      exact ⟨[], files.flatMap localRecord, by simp, by simp [entriesFrom]⟩
    | succ i =>
      obtain ⟨front, back, hsplit, hget⟩ := @ih (off + (localRecord g).length) i (by simpa using h)
      refine ⟨localRecord g ++ front, back, by simp [hsplit], ?_⟩
      unfold entriesFrom
      rw [List.getElem?_cons_succ, hget, List.length_append, Nat.add_assoc]

section

variable {w w' : ZipWriter}

/-- Bytes that are pushed are appended. -/
theorem pushBytes_spec {data : List UInt8} (h : pushBytes w data = some w') :
    w' = { w with out := w.out ++ data } ∧ (w.out ++ data).length ≤ w.outCap.toNat := by
  unfold pushBytes at h
  split at h
  · cases h
  · rw [List.length_append]
    exact ⟨(Option.some.inj h).symm, by omega⟩

/-- Bytes are pushed where there is room. -/
theorem pushBytes_of_room {data : List UInt8} (h : w.out.length + data.length ≤ w.outCap.toNat) :
    pushBytes w data = some { w with out := w.out ++ data } := by
  unfold pushBytes
  rw [if_neg (by omega)]

/-- A file is added where there is room. -/
theorem zipWriterAddFile_of_room {f : File} (hcount : w.entries.length < maxEntries)
    (hname : f.name.val.length < nameMax) (hroom : w.out.length + (localRecord f).length ≤
      w.outCap.toNat) : zipWriterAddFile w f.name f.data =
      some { w with out := w.out ++ localRecord f, entries := w.entries ++
        [entryOf w.out.length f] } := by
  rw [length_localRecord] at hroom
  have hheader := @pushBytes_of_room w (localHeader f.name.val.length f.crc f.data.val.length) (by simp; omega)
  have hnamed := @pushBytes_of_room { w with out := w.out ++ localHeader f.name.val.length f.crc f.data.val.length } f.name.val
    (by simp; omega)
  have hdata := @pushBytes_of_room
    { w with out := w.out ++ localHeader f.name.val.length f.crc f.data.val.length ++ f.name.val } f.data.val (by simp; omega)
  unfold zipWriterAddFile
  dsimp only
  rw [if_neg (by omega), if_neg (by omega), if_neg (by omega)]
  unfold File.crc at hheader hnamed hdata
  rw [hheader, Option.bind_some, hnamed, Option.bind_some]
  unfold localRecord
  by_cases hsize : f.data.val.length > 0
  · rw [if_pos hsize, hdata, ← List.append_assoc, ← List.append_assoc]
    rfl
  · have hempty : f.data.val = [] := List.length_eq_zero_iff.mp (by omega)
    rw [if_neg hsize, hempty, List.append_nil, ← List.append_assoc]
    unfold entryOf File.crc
    rw [hempty]
    rfl

/-- A file that is added has its record and its entry. -/
theorem zipWriterAddFile_spec {f : File} (h : zipWriterAddFile w f.name f.data = some w') :
    f.name.val.length < nameMax ∧ w.entries.length < maxEntries ∧
      w' = { w with out := w.out ++ localRecord f, entries := w.entries ++
        [entryOf w.out.length f] } ∧
      (w.out ++ localRecord f).length ≤ w.outCap.toNat := by
  unfold zipWriterAddFile at h
  split at h
  · cases h
  rename_i hcount
  dsimp only at h
  split at h
  · cases h
  rename_i hname
  split at h
  · cases h
  obtain ⟨w₃, hpush, rfl⟩ := Option.map_eq_some_iff.mp h
  obtain ⟨w₁, hheader, hpush⟩ := Option.bind_eq_some_iff.mp hpush
  obtain ⟨w₂, hnamed, hpush⟩ := Option.bind_eq_some_iff.mp hpush
  obtain ⟨rfl, -⟩ := pushBytes_spec hheader
  obtain ⟨rfl, hle⟩ := pushBytes_spec hnamed
  have hdata : w₃ = { w with out := w.out ++ localRecord f } ∧ (w.out ++ localRecord f).length ≤
      w.outCap.toNat := by
    unfold localRecord File.crc
    by_cases hsize : f.data.val.length > 0
    · rw [if_pos hsize] at hpush
      obtain ⟨rfl, hle⟩ := pushBytes_spec hpush
      rw [← List.append_assoc, ← List.append_assoc]
      exact ⟨rfl, hle⟩
    · have hempty : f.data.val = [] := List.length_eq_zero_iff.mp (by omega)
      rw [if_neg hsize] at hpush
      obtain rfl := Option.some.inj hpush
      rw [hempty] at hle ⊢
      rw [List.append_nil, ← List.append_assoc]
      exact ⟨rfl, hle⟩
  obtain ⟨rfl, hle⟩ := hdata
  exact ⟨Nat.lt_of_not_ge hname, Nat.lt_of_not_ge hcount, rfl, hle⟩

/-- Files that are added have their records and their entries. -/
theorem addFiles_spec {files : List File} (h : addFiles w files = some w')
    (hcount : w.entries.length ≤ maxEntries) (hcap : w.out.length ≤ w.outCap.toNat) :
    (∀ f ∈ files, f.name.val.length < nameMax) ∧ w.entries.length + files.length ≤ maxEntries ∧
      w' = { w with
        out := w.out ++ files.flatMap localRecord, entries := w.entries ++ entriesFrom w.out.length files } ∧
      (w.out ++ files.flatMap localRecord).length ≤ w.outCap.toNat := by
  induction files generalizing w with
  | nil =>
    obtain rfl := Option.some.inj h
    simp [entriesFrom, hcount, hcap]
  | cons f files ih =>
    obtain ⟨w₁, hadd, h⟩ := Option.bind_eq_some_iff.mp h
    obtain ⟨hname, hroom, rfl, hle⟩ := zipWriterAddFile_spec hadd
    obtain ⟨hnames, htotal, rfl, hbound⟩ := ih h (by simp; omega) hle
    refine ⟨?_, ?_, ?_, ?_⟩
    · intro g hg
      cases List.mem_cons.mp hg with
      | inl heq => rwa [heq]
      | inr hmem => exact hnames g hmem
    · simp only [List.length_append, List.length_cons, List.length_nil] at htotal ⊢
      omega
    · simp only [List.flatMap_cons, List.append_assoc, entriesFrom, List.length_append,
        List.cons_append, List.nil_append]
    · simpa only [List.flatMap_cons, List.append_assoc] using hbound

/-- The directory that is pushed is appended. -/
theorem pushDirectory_spec {entries : List ZipEntry} (h : pushDirectory w entries = some w')
    (hcap : w.out.length ≤ w.outCap.toNat) :
    w' = { w with out := w.out ++ entries.flatMap cdRecord } ∧
      (w.out ++ entries.flatMap cdRecord).length ≤ w.outCap.toNat := by
  induction entries generalizing w with
  | nil =>
    obtain rfl := Option.some.inj h
    simp [hcap]
  | cons e entries ih =>
    obtain ⟨w₁, hentry, h⟩ := Option.bind_eq_some_iff.mp h
    obtain ⟨w₂, hname, h⟩ := Option.bind_eq_some_iff.mp h
    obtain ⟨rfl, -⟩ := pushBytes_spec hentry
    obtain ⟨rfl, hle⟩ := pushBytes_spec hname
    obtain ⟨rfl, hbound⟩ := ih h hle
    have hsplit : w.out ++ (e :: entries).flatMap cdRecord =
        w.out ++ cdEntry e ++ e.name ++ entries.flatMap cdRecord := by
      simp only [List.flatMap_cons, cdRecord, List.append_assoc]
    rw [hsplit]
    exact ⟨rfl, hbound⟩

/-- The directory is pushed where there is room. -/
theorem pushDirectory_of_room {entries : List ZipEntry}
    (h : w.out.length + (entries.flatMap cdRecord).length ≤ w.outCap.toNat) :
    pushDirectory w entries = some { w with out := w.out ++ entries.flatMap cdRecord } := by
  induction entries generalizing w with
  | nil => simp [pushDirectory]
  | cons e entries ih =>
    rw [List.flatMap_cons, List.length_append, length_cdRecord] at h
    have hentry := @pushBytes_of_room w (cdEntry e) (by rw [length_cdEntry]; omega)
    have hname := @pushBytes_of_room { w with out := w.out ++ cdEntry e } e.name (by simp; omega)
    have hrest := @ih { w with out := w.out ++ cdEntry e ++ e.name }
      (by simp only [List.length_append, length_cdEntry]; omega)
    rw [pushDirectory, hentry, Option.bind_some, hname, Option.bind_some, hrest, List.flatMap_cons,
      cdRecord]
    simp only [List.append_assoc]

end

structure Fits (e : ZipEntry) : Prop where
  name : e.name.length < nameMax
  noNul : 0 ∉ e.name
  method : e.method < 2 ^ 16
  crc32 : e.crc32 < 2 ^ 32
  sizeCompressed : e.sizeCompressed < 2 ^ 32
  sizeUncompressed : e.sizeUncompressed < 2 ^ 32
  localHeaderOffset : e.localHeaderOffset < 2 ^ 32
  isDirectory : e.isDirectory = (e.name.getLast? == some Zip.slash)

/-- The fields of an entry are read back. -/
theorem cdEntry_fields {e : ZipEntry} (h : Fits e) (rest : List UInt8) :
    readU32 (cdEntry e ++ rest) 0 = 0x02014b50 ∧ readU16 (cdEntry e ++ rest) 8 = 0x0800 ∧
      readU16 (cdEntry e ++ rest) 10 = e.method ∧ readU32 (cdEntry e ++ rest) 16 = e.crc32 ∧
      readU32 (cdEntry e ++ rest) 20 = e.sizeCompressed ∧
      readU32 (cdEntry e ++ rest) 24 = e.sizeUncompressed ∧
      readU16 (cdEntry e ++ rest) 28 = e.name.length ∧ readU16 (cdEntry e ++ rest) 30 = 0 ∧
      readU16 (cdEntry e ++ rest) 32 = 0 ∧ readU16 (cdEntry e ++ rest) 34 = 0 ∧
      readU32 (cdEntry e ++ rest) 42 = e.localHeaderOffset := by
  have hname : e.name.length < 65536 := Nat.lt_trans h.name (by decide)
  unfold cdEntry
  simp only [List.append_assoc, readU32_skip _ (length_le32 _), readU16_skip _ (length_le32 _),
    readU32_skip _ (length_le16 _),
    readU16_skip _ (length_le16 _), readU32_skip _ List.length_replicate, readU16_skip _ List.length_replicate,
    Nat.reduceLeDiff, Nat.reduceSub]
  exact ⟨readU32_le32 (by omega) _, readU16_le16 (by omega) _, readU16_le16 h.method _,
    readU32_le32 h.crc32 _,
    readU32_le32 h.sizeCompressed _, readU32_le32 h.sizeUncompressed _, readU16_le16 hname _, rfl, rfl, rfl,
    readU32_le32 h.localHeaderOffset _⟩

/-- The fields of a local header are read back. -/
theorem localHeader_fields {nlen : Nat} (crc size : Nat) (hname : nlen < nameMax)
    (rest : List UInt8) :
    readU32 (localHeader nlen crc size ++ rest) 0 = 0x04034b50 ∧
      readU16 (localHeader nlen crc size ++ rest) 26 = nlen ∧
      readU16 (localHeader nlen crc size ++ rest) 28 = 0 := by
  unfold localHeader
  simp only [List.append_assoc, readU16_skip _ (length_le32 _), readU16_skip _ (length_le16 _),
    readU16_skip _ List.length_replicate, Nat.reduceLeDiff, Nat.reduceSub]
  exact ⟨readU32_le32 (by omega) _, readU16_le16 (Nat.lt_trans hname (by decide)) _, rfl⟩

/-- The fields of the end record are read back. -/
theorem eocd_fields {count cdSize cdStart : Nat} (hcount : count ≤ maxEntries)
    (hsize : cdSize < 2 ^ 32) (hstart : cdStart < 2 ^ 32) :
    readU32 (eocd count cdSize cdStart) 0 = 0x06054b50 ∧ readU16 (eocd count cdSize cdStart) 4 = 0 ∧
      readU16 (eocd count cdSize cdStart) 6 = 0 ∧ readU16 (eocd count cdSize cdStart) 8 = count ∧
      readU16 (eocd count cdSize cdStart) 10 = count ∧
      readU32 (eocd count cdSize cdStart) 12 = cdSize ∧
      readU32 (eocd count cdSize cdStart) 16 = cdStart ∧
      readU16 (eocd count cdSize cdStart) 20 = 0 := by
  have hcountWord : count < 65536 := Nat.lt_of_le_of_lt hcount (by decide)
  unfold eocd
  simp only [readU32_skip _ (length_le32 _), readU16_skip _ (length_le32 _),
    readU32_skip _ (length_le16 _),
    readU16_skip _ (length_le16 _), readU32_skip _ List.length_replicate, readU16_skip _ List.length_replicate,
    Nat.reduceLeDiff, Nat.reduceSub]
  exact ⟨readU32_le32 (by omega) _, rfl, rfl, readU16_le16 hcountWord _, readU16_le16 hcountWord _,
    readU32_le32 hsize _,
    readU32_le32 hstart _, rfl⟩

section

variable {p front : List UInt8} {cdEnd : Nat}

/-- A record of the directory is read back. -/
theorem readEntry_cdRecord {e : ZipEntry} {back : List UInt8} (h : Fits e)
    (hp : p = front ++ (cdRecord e ++ back)) (hle : front.length + (cdRecord e).length ≤ cdEnd)
    (hend : cdEnd ≤ p.length) :
    readEntry p cdEnd front.length = some (e, (cdRecord e).length) := by
  obtain ⟨hsignature, hflags, hmethod, hcrc, hcompressed, huncompressed, hname, hextra, hcomment, hdisk, hoffset⟩ :=
    cdEntry_fields h (e.name ++ back)
  have hp' : p = front ++ (cdEntry e ++ (e.name ++ back)) := by
    rw [hp]
    unfold cdRecord
    rw [List.append_assoc]
  have hbytes : slice p (front.length + 46) e.name.length = e.name := by
    rw [hp', slice_append_right, ← length_cdEntry e]
    exact slice_part _ _ _
  have hread16 (o : Nat) : readU16 p (front.length + o) = readU16 (cdEntry e ++ (e.name ++ back)) o := by
    rw [hp', readU16_append]
  have hread32 (o : Nat) : readU32 p (front.length + o) = readU32 (cdEntry e ++ (e.name ++ back)) o := by
    rw [hp', readU32_append]
  have hfirst : readU32 p front.length = 0x02014b50 := by
    rw [← hsignature, ← hread32, Nat.add_zero]
  have hlength := length_cdRecord e
  have hshort := h.name
  unfold readEntry
  rw [hfirst, hread16, hflags, hread16, hdisk, if_neg (by simp; omega)]
  dsimp only
  rw [hread16, hname, hread16, hextra, hread16, hcomment, if_neg (by omega), if_neg (by omega),
    hbytes, if_neg h.noNul, hread16,
    hmethod, hread32, hcrc, hread32, hcompressed, hread32, huncompressed, hread32, hoffset, ← h.isDirectory]
  rw [hlength]
  rfl

/-- The directory is read back. -/
theorem readEntriesFrom_directory (entries : List ZipEntry) (acc : List ZipEntry)
    {back : List UInt8} (h : ∀ e ∈ entries, Fits e) (hp : p = front ++ (entries.flatMap cdRecord ++
      back)) (hend : cdEnd = front.length + (entries.flatMap cdRecord).length) :
    readEntriesFrom p cdEnd entries.length front.length acc = (true, acc ++ entries) := by
  induction entries generalizing front acc with
  | nil =>
    rw [List.append_nil]
    rfl
  | cons e entries ih =>
    have hp' : p = front ++ (cdRecord e ++ (entries.flatMap cdRecord ++ back)) := by
      rw [hp, List.flatMap_cons, List.append_assoc]
    rw [List.flatMap_cons, List.length_append] at hend
    have hlength := congrArg List.length hp'
    simp only [List.length_append] at hlength
    have hread := @readEntry_cdRecord p front cdEnd e _ (h e List.mem_cons_self) hp' (by omega) (by omega)
    have hrest := @ih (front ++ cdRecord e) (acc ++ [e]) (fun e' he' => h e' (List.mem_cons_of_mem _ he'))
      (by rw [hp', List.append_assoc]) (by rw [List.length_append]; omega)
    rw [List.length_cons, readEntriesFrom, hread]
    dsimp only
    rw [← List.length_append, hrest, List.append_assoc]
    rfl

/-- The data of a file lie behind its local header. -/
theorem dataOffset_localRecord {f : File} {back : List UInt8}
    (hp : p = front ++ (localRecord f ++ back)) (hname : f.name.val.length < nameMax) :
    dataOffset p (entryOf front.length f) = some (front.length + 30 + f.name.val.length) ∧
      slice p (front.length + 30 + f.name.val.length) f.data.val.length = f.data.val := by
  obtain ⟨hsignature, hnlen, hextra⟩ := localHeader_fields f.crc f.data.val.length hname (f.name.val ++ f.data.val ++ back)
  have hp' : p = front ++ (localHeader f.name.val.length f.crc f.data.val.length ++ (f.name.val ++ f.data.val ++ back)) := by
    rw [hp]
    unfold localRecord
    rw [List.append_assoc]
  have hlength := congrArg List.length hp'
  simp only [List.length_append, length_localHeader] at hlength
  constructor
  · have hfirst := readU32_append front
      (localHeader f.name.val.length f.crc f.data.val.length ++ (f.name.val ++ f.data.val ++ back)) 0
    rw [← hp', Nat.add_zero, hsignature] at hfirst
    have hread16 (o : Nat) : readU16 p (front.length + o) =
        readU16 (localHeader f.name.val.length f.crc f.data.val.length ++ (f.name.val ++ f.data.val ++ back)) o := by
      rw [hp', readU16_append]
    unfold dataOffset entryOf
    dsimp only
    rw [hfirst, if_neg (by omega), hread16, hnlen, hread16, hextra, Nat.add_zero,
      if_neg (by omega), if_neg (by omega)]
  · have hsplit : p = (front ++ (localHeader f.name.val.length f.crc f.data.val.length ++ f.name.val)) ++ (f.data.val ++ back) := by
      rw [hp']
      simp only [List.append_assoc]
    have hbefore : (front ++ (localHeader f.name.val.length f.crc f.data.val.length ++ f.name.val)).length =
        front.length + 30 + f.name.val.length := by
      simp only [List.length_append, length_localHeader]
      omega
    rw [hsplit, ← hbefore]
    exact slice_part _ _ _

end

/-- The search stops at the end record. -/
theorem scanEocd_of_isEocd {p : List UInt8} {limit i : Nat} (h : isEocd p i = true)
    (hlimit : limit ≤ i) :
    scanEocd p limit i = i := by
  cases i with
  | zero => rfl
  | succ i =>
    unfold scanEocd
    rw [if_pos hlimit, if_pos h]

def archiveOf (files : List File) : List UInt8 :=
  files.flatMap localRecord ++ ((entriesFrom 0 files).flatMap cdRecord ++
    eocd files.length ((entriesFrom 0 files).flatMap cdRecord).length (files.flatMap localRecord).length)

/-- What the writer has written is the archive of the files. -/
theorem written {files : List File} {cap : UInt32} {w : ZipWriter} {n : Int} {archive : List UInt8}
    (hadd : addFiles (zipWriterInit cap) files = some w)
    (hfinish : zipWriterFinish w = some (n, archive)) :
    archive = archiveOf files ∧ n = toInt archive.length ∧ archive.length < 2 ^ 32 ∧
      files.length ≤ maxEntries ∧
      ∀ f ∈ files, f.name.val.length < nameMax := by
  have hcap := cap.toNat_lt
  obtain ⟨hnames, hcount, rfl, hle⟩ := addFiles_spec hadd (Nat.zero_le _) (Nat.zero_le _)
  unfold zipWriterInit at hcount hle hfinish
  simp only [List.nil_append, List.length_nil, Nat.zero_add] at hcount hle hfinish
  obtain ⟨w₁, hdirectory, hfinish⟩ := Option.bind_eq_some_iff.mp hfinish
  obtain ⟨rfl, -⟩ := pushDirectory_spec hdirectory hle
  obtain ⟨w₂, hend, hresult⟩ := Option.map_eq_some_iff.mp hfinish
  obtain ⟨rfl, hbound⟩ := pushBytes_spec hend
  obtain ⟨rfl, rfl⟩ := Prod.mk.inj hresult
  have harchive : files.flatMap localRecord ++ (entriesFrom 0 files).flatMap cdRecord ++
      eocd (entriesFrom 0 files).length ((files.flatMap localRecord ++ (entriesFrom 0 files).flatMap cdRecord).length -
        (files.flatMap localRecord).length) (files.flatMap localRecord).length = archiveOf files := by
    unfold archiveOf
    rw [List.append_assoc, length_entriesFrom, List.length_append, Nat.add_sub_cancel_left]
  rw [harchive] at hbound ⊢
  exact ⟨rfl, rfl, Nat.lt_of_le_of_lt hbound hcap, hcount, hnames⟩

/-- The entries of short names below 4 GiB fit their fields. -/
theorem fits_entriesFrom {off bound : Nat} {files : List File}
    (hnames : ∀ f ∈ files, f.name.val.length < nameMax)
    (hbound : off + (files.flatMap localRecord).length ≤ bound) (h32 : bound < 2 ^ 32) :
    ∀ e ∈ entriesFrom off files, Fits e := by
  induction files generalizing off with
  | nil => exact fun e he => absurd he (by simp [entriesFrom])
  | cons f files ih =>
    rw [List.flatMap_cons, List.length_append, length_localRecord] at hbound
    intro e he
    cases List.mem_cons.mp he with
    | inl heq =>
      rw [heq]
      exact ⟨hnames f List.mem_cons_self, f.name.property, show methodStore < 2 ^ 16 by decide,
        UInt32.toNat_lt _, f.data.property, f.data.property,
        by unfold entryOf; dsimp only; omega, rfl⟩
    | inr hmem =>
      exact ih (fun g hg => hnames g (List.mem_cons_of_mem _ hg)) (by rw [length_localRecord]; omega) e hmem

/-- The reader opens what ends with a directory. -/
theorem zipReaderOpen_directory {data : List UInt8} {entries : List ZipEntry} {archive : Buffer}
    (harchive : archive.val = data ++ (entries.flatMap cdRecord ++
      eocd entries.length (entries.flatMap cdRecord).length data.length))
    (hcount : entries.length ≤ maxEntries) (hfits : ∀ e ∈ entries, Fits e) :
    zipReaderOpen archive = (0, ⟨archive, entries, true⟩) := by
  have h32 := archive.property
  generalize hfront : data ++ entries.flatMap cdRecord = front
  have hp : archive.val = front ++ eocd entries.length (entries.flatMap cdRecord).length data.length := by
    rw [harchive, ← hfront, List.append_assoc]
  have hfrontLength := congrArg List.length hfront
  rw [List.length_append] at hfrontLength
  have hlength := congrArg List.length hp
  rw [List.length_append, length_eocd] at hlength
  obtain ⟨hsignature, hdisk, hstart, hhere, htotal, hsize, hoffset, hcomment⟩ :=
    @eocd_fields entries.length
    (entries.flatMap cdRecord).length data.length hcount (by omega) (by omega)
  have hread16 (o : Nat) : readU16 archive.val (front.length + o) =
      readU16 (eocd entries.length (entries.flatMap cdRecord).length data.length) o := by
    rw [hp, readU16_append]
  have hread32 (o : Nat) : readU32 archive.val (front.length + o) =
      readU32 (eocd entries.length (entries.flatMap cdRecord).length data.length) o := by
    rw [hp, readU32_append]
  have hfirst := hread32 0
  rw [Nat.add_zero, hsignature] at hfirst
  have heocd : isEocd archive.val front.length = true := by
    unfold isEocd
    rw [hfirst, hread16, hcomment, hlength]
    simp
  have hscan : scanEocd archive.val (if archive.val.length > 65557 then archive.val.length - 65557 else 0)
      (archive.val.length - 22) = front.length := by
    rw [show archive.val.length - 22 = front.length by omega]
    apply scanEocd_of_isEocd heocd
    split <;> omega
  have hentries := readEntriesFrom_directory entries [] hfits harchive rfl
  unfold zipReaderOpen
  dsimp only
  rw [if_neg (by omega), hscan, hfirst, hread16, hcomment, hread16, hdisk, hread16, hstart,
    hread16, hhere, hread16, htotal, hread32,
    hoffset, hread32, hsize]
  rw [if_neg (by split <;> omega), if_neg (by omega), if_neg (by omega), hentries]
  rfl

/-- The reader opens the archive of the files. -/
theorem zipReaderOpen_archive {files : List File} {archive : Buffer}
    (harchive : archive.val = archiveOf files) (hcount : files.length ≤ maxEntries)
    (hnames : ∀ f ∈ files, f.name.val.length < nameMax) :
    zipReaderOpen archive = (0, ⟨archive, entriesFrom 0 files, true⟩) := by
  have h32 := archive.property
  have hlength := congrArg List.length harchive
  unfold archiveOf at hlength
  rw [List.length_append] at hlength
  rw [← length_entriesFrom 0 files] at hcount
  refine @zipReaderOpen_directory (files.flatMap localRecord) _ _ ?_ hcount
    (fits_entriesFrom hnames (show 0 + (files.flatMap localRecord).length ≤ archive.val.length by omega) h32)
  rw [harchive, length_entriesFrom]
  rfl

/-- The reader extracts every file of the archive. -/
theorem zipReaderExtract_archive {files : List File} {archive : Buffer} {i : Nat} {f : File}
    {out : Zcomp.Memory} {outCap : UInt32} (harchive : archive.val = archiveOf files)
    (h31 : archive.val.length < 2 ^ 31) (hnames : ∀ f ∈ files, f.name.val.length < nameMax)
    (hget : files[i]? = some f) (hcap : f.data.val.length ≤ outCap.toNat) :
    zipReaderExtract ⟨archive, entriesFrom 0 files, true⟩ i out outCap =
      ((f.data.val.length : Int), store out 0 f.data.val) := by
  obtain ⟨front, back, hsplit, hentry⟩ := @getElem?_entriesFrom 0 i files f hget
  have hlength : f.data.val.length < 2 ^ 31 := by
    have h := congrArg List.length harchive
    unfold archiveOf at h
    simp only [hsplit, List.length_append, length_localRecord] at h
    omega
  have hp : archive.val = front ++ (localRecord f ++ (back ++ ((entriesFrom 0 files).flatMap cdRecord ++
      eocd files.length ((entriesFrom 0 files).flatMap cdRecord).length (files.flatMap localRecord).length))) := by
    rw [harchive]
    unfold archiveOf
    rw [hsplit]
    simp only [List.append_assoc]
  obtain ⟨hoffset, hslice⟩ := dataOffset_localRecord hp (hnames f (List.mem_of_getElem? hget))
  rw [Nat.zero_add] at hentry
  have hint : toInt f.data.val.length = f.data.val.length := by
    unfold toInt
    rw [Int.bmod_def]
    omega
  have hexpand : expand archive (entryOf front.length f) (front.length + 30 + f.name.val.length) out outCap =
      (some (f.data.val.length : Int), store out 0 f.data.val) := by
    unfold expand entryOf
    dsimp only
    rw [if_pos rfl, if_neg (Nat.not_lt.mpr hcap), hslice, hint]
  have hsize : ((f.data.val.length : Int) % 2 ^ 32).toNat = f.data.val.length := by omega
  have hload : load (store out 0 f.data.val) 0 f.data.val.length = f.data.val := load_store _ _ _
  unfold zipReaderExtract
  dsimp only
  rw [if_neg (by simp), hentry]
  dsimp only
  rw [if_neg (by unfold entryOf; dsimp only; omega), hoffset]
  dsimp only
  rw [hexpand]
  dsimp only
  rw [hsize, hload, if_neg (by simp [entryOf]), if_neg (by simp [entryOf, File.crc])]

theorem roundTrip (files : List File) (cap : UInt32) (w : ZipWriter) (n : Int)
    (archive : List UInt8) (hadd : addFiles (zipWriterInit cap) files = some w)
    (hfinish : zipWriterFinish w = some (n, archive)) (hn : 0 ≤ n) :
    n = archive.length ∧ ∃ h : archive.length < 2 ^ 32, (zipReaderOpen ⟨archive, h⟩).1 = 0 ∧
        (zipReaderOpen ⟨archive, h⟩).2.entries.map (·.name) = files.map (·.name.val) ∧
        ∀ (i : Nat) (f : File), files[i]? = some f →
        ∀ (out : Zcomp.Memory) (outCap : UInt32), f.data.val.length ≤ outCap.toNat →
          zipReaderExtract (zipReaderOpen ⟨archive, h⟩).2 i out outCap =
            ((f.data.val.length : Int), store out 0 f.data.val) := by
  obtain ⟨harchive, hresult, h32, hcount, hnames⟩ := written hadd hfinish
  have h31 : archive.length < 2 ^ 31 ∧ n = archive.length := by
    unfold toInt at hresult
    rw [Int.bmod_def] at hresult
    omega
  have hopen := @zipReaderOpen_archive files ⟨archive, h32⟩ harchive hcount hnames
  refine ⟨h31.2, h32, ?_, ?_, ?_⟩
  · rw [hopen]
  · rw [hopen]
    exact map_name_entriesFrom 0 files
  · intro i f hget out outCap hcap
    rw [hopen]
    exact zipReaderExtract_archive harchive h31.1 hnames hget hcap

def note : File := ⟨⟨[0x61], by decide⟩, ⟨[1, 2, 3], by decide⟩⟩

def memo : File := ⟨⟨[0x62], by decide⟩, ⟨[4], by decide⟩⟩

/-- The writer after both files. -/
def notesWriter : ZipWriter :=
  ⟨localRecord note ++ localRecord memo, 400, [entryOf 0 note, entryOf 34 memo]⟩

/-- The records of the example, counted. -/
theorem length_localRecords : (localRecord note).length = 34 ∧ (localRecord memo).length = 32 :=
  ⟨length_localRecord note, length_localRecord memo⟩

/-- The writer takes both files of the example. -/
theorem addFiles_notes : addFiles (zipWriterInit 400) [note, memo] = some notesWriter := by
  obtain ⟨hnote, hmemo⟩ := length_localRecords
  have hfirst : zipWriterAddFile (zipWriterInit 400) note.name note.data =
      some ⟨localRecord note, 400, [entryOf 0 note]⟩ := by
    rw [zipWriterAddFile_of_room (by decide) (by decide) (by rw [hnote]; decide)]
    unfold zipWriterInit
    simp only [List.nil_append, List.length_nil]
  have hsecond : zipWriterAddFile ⟨localRecord note, 400, [entryOf 0 note]⟩ memo.name memo.data =
      some notesWriter := by
    rw [zipWriterAddFile_of_room (by decide) (by decide) (by rw [hmemo]; dsimp only; rw [hnote]; decide)]
    unfold notesWriter
    dsimp only
    rw [hnote]
    rfl
  rw [addFiles, hfirst, Option.bind_some, addFiles, hsecond]
  exact Option.bind_some _ _

/-- The archive of the example. -/
theorem zipWriterFinish_notes :
    zipWriterFinish notesWriter = some (182, archiveOf [note, memo]) := by
  obtain ⟨hnote, hmemo⟩ := length_localRecords
  have hlocal : (localRecord note ++ localRecord memo).length = 66 := by
    rw [List.length_append, hnote, hmemo]
  have hdirectory : (notesWriter.entries.flatMap cdRecord).length = 94 := rfl
  have hpush := @pushBytes_of_room
    ⟨localRecord note ++ localRecord memo ++ notesWriter.entries.flatMap cdRecord, 400, notesWriter.entries⟩ (eocd 2 94 66)
    (by rw [List.length_append, hlocal, hdirectory]; decide)
  unfold zipWriterFinish
  rw [pushDirectory_of_room (by rw [hdirectory]; unfold notesWriter; dsimp only; rw [hlocal]; decide), Option.bind_some]
  unfold notesWriter at hpush hdirectory ⊢
  dsimp only at hpush hdirectory ⊢
  rw [List.length_append, hlocal, hdirectory, show [entryOf 0 note, entryOf 34 memo].length = 2 from rfl, hpush,
    Option.map_some]
  have hlocals : [note, memo].flatMap localRecord = localRecord note ++ localRecord memo := by
    rw [List.flatMap_cons, List.flatMap_cons, List.flatMap_nil, List.append_nil]
  have harchive : archiveOf [note, memo] = localRecord note ++ localRecord memo ++
      [entryOf 0 note, entryOf 34 memo].flatMap cdRecord ++ eocd 2 94 66 := by
    rw [archiveOf, hlocals, hlocal, entriesFrom, entriesFrom, entriesFrom, hnote, Nat.zero_add,
      hdirectory,
      List.append_assoc]
    rfl
  have hlength : (archiveOf [note, memo]).length = 182 := by
    rw [harchive, List.length_append, List.length_append, hlocal, hdirectory, length_eocd]
  dsimp only
  rw [← harchive, hlength]
  rfl

theorem roundTrip_note : (182 : Int) = (archiveOf [note, memo]).length ∧ ∃ h :
    (archiveOf [note, memo]).length < 2 ^ 32,
    (zipReaderOpen ⟨archiveOf [note, memo], h⟩).1 = 0 ∧
    (zipReaderOpen ⟨archiveOf [note, memo], h⟩).2.entries.map (·.name) =
      [note, memo].map (·.name.val) ∧
    ∀ (i : Nat) (f : File), [note, memo][i]? = some f → ∀ (out : Zcomp.Memory) (outCap : UInt32),
      f.data.val.length ≤ outCap.toNat →
      zipReaderExtract (zipReaderOpen ⟨archiveOf [note, memo], h⟩).2 i out outCap =
        ((f.data.val.length : Int), store out 0 f.data.val) :=
  roundTrip [note, memo] 400 notesWriter 182 (archiveOf [note, memo]) addFiles_notes zipWriterFinish_notes (by decide)

end Monios.Analysis.Zip
