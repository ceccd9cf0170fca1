import Monios.Analysis.CacheFiles

/-!
# Transparency of the file cache

Reads through the file cache return what reads of the file would, after any calls, as long as every
write call leaves no hole behind the end of its file that the cache does not know of: the file is
extended with zeros by the write of a part of a block only, and a slot that holds a short block does
not notice it.
-/

set_option autoImplicit false

namespace Monios.Analysis.FsCache

open Monios.Library Monios.Library.FileBytes Monios.Model.FsCache

variable {s t : Cache Files} {i : Fin defaultSlots} {pending : Path → Nat → Prop} {files : Files} {path : Path}
  {start : Nat}

theorem readAt_machine (h : Shows none settled files s) (hok : SlotsOk s)
    (habsent : Absent s path start) (hstart : start % blockSize = 0) :
    readAt (s.machine path) start blockSize = readAt (files path) start blockSize := by
  apply List.ext_getElem?
  intro j
  rw [getElem?_readAt, getElem?_readAt]
  split
  · next hj =>
    have hclean : NotDirty s path (start + j) := by
      intro k hk hpath hin
      have hvalid := hok.valid k hk
      have halign := h.aligned k hvalid
      have hne := habsent k hvalid hpath
      unfold blockSize at *
      omega
    rcases h.behind path (start + j) hclean with hsame | ⟨hpend, -⟩
    · exact hsame
    · exact hpend.elim
  · rfl

theorem callLoader_of_eq {σ : Type} {loader : Loader σ} {offset size : Nat} {s : Cache σ} {r : Int}
    {data : List UInt8} (h : loader path offset size s.machine = (r, data, s.machine)) :
    callLoader loader path offset size s = ((r, data), s, []) := by
  have heq : callLoader loader path offset size s =
      (((loader path offset size s.machine).1, (loader path offset size s.machine).2.1),
        { s with machine := (loader path offset size s.machine).2.2 }, []) := rfl
  rw [heq, h]

theorem callLoader_file (path : Path) (offset size : Nat) (s : Cache Files) :
    callLoader fileLoader path offset size s =
    ((int32 (readAt (s.machine path) offset size).length, readAt (s.machine path) offset size), s, []) := by
  apply callLoader_of_eq
  unfold fileLoader
  exact Eq.refl _

def Found (files : Files) (path : Path) (start : Nat) (bytes : List UInt8) (t : Cache Files) :
    Fill → Prop
  | .slot i => Keyed path start i t
  | .stop result bytes' =>
    bytes' = bytes ∧ result = copiedOr bytes 0 ∧ readAt (files path) start blockSize = []

theorem slotShows_loadedSlot (age : Nat) (hpath : pathIsCacheable path = true)
    (hpos : 0 < (readAt (files path) start blockSize).length) :
    SlotShows files (loadedSlot path start (readAt (files path) start blockSize).length
      ((readAt (files path) start blockSize).take blockSize) age) := by
  have htake : (readAt (files path) start blockSize).take blockSize =
      readAt (files path) start blockSize := by
    apply List.take_of_length_le
    rw [length_readAt]
    exact Nat.min_le_left _ _
  unfold loadedSlot
  rw [copyPath_of_cacheable hpath, htake]
  exact ⟨hpos, rfl, List.take_left⟩

theorem fillSlot_shows (hpath : pathIsCacheable path = true) (hstart : start % blockSize = 0)
    (hsmall : start < 2 ^ 32) (current want : Nat) (bytes : List UInt8)
    (h : Working settled files s) (hen : s.enabled = true) :
    Traced.Ends Keeps (fun fill t => Working settled files t ∧ t.enabled = true ∧
      Found files path start bytes t fill)
      (fillSlot fileFlusher fileLoader path start current want bytes) s := by
  unfold fillSlot
  apply Traced.Ends.reads_bind
  cases hfind : find path start s with
  | some i =>
    obtain ⟨hvalid, hkey, hblock, -⟩ := find_some hfind
    exact Traced.Ends.pure (Keeps.refl s []) ⟨h, hen, hvalid, hkey, hblock⟩
  | none =>
    apply Traced.Ends.bind Keeps.trans ((chooseSlot_ready fileFlusher h.ok hen hfind).and
      (P := fun chosen t => chosen ≠ none ∧ Shows none settled files t) (chooseSlot_shows h))
    rintro chosen t ⟨⟨hok, hen, hready⟩, hchosen, hshows⟩
    obtain ⟨i, rfl⟩ := Option.ne_none_iff_exists'.mp hchosen
    have hready := hready i rfl
    have hload : ¬ start > 0xFFFFFFFF - (blockSize - 1) := by
      unfold blockSize at hstart ⊢
      omega
    dsimp only
    rw [if_neg hload]
    apply Traced.Ends.modifies_bind Keeps.trans (Keeps.setClean _ hready.clean [])
    have hshows : Shows none settled files (t.setSlot i {}) :=
      hshows.setInvalid hready.clean rfl rfl
    have hready := hready.setEmpty
    generalize t.setSlot i {} = u at hready hshows ⊢
    have hread := readAt_machine hshows hready.ok hready.absent hstart
    have hcall := callLoader_file path start blockSize u
    have hcount : (readAt (files path) start blockSize).length ≤ blockSize := by
      rw [length_readAt]
      exact Nat.min_le_left _ _
    rw [hread, int32_of_lt (Nat.lt_of_le_of_lt hcount (by decide))] at hcall
    apply Traced.Ends.bind_same hcall
    dsimp only
    rw [if_neg (by omega)]
    apply Traced.Ends.ite
    · intro hzero
      have hnil : readAt (files path) start blockSize = [] := by
        apply List.eq_nil_of_length_eq_zero
        omega
      refine Traced.Ends.pure (Keeps.refl u []) ⟨⟨hready.ok, hshows⟩, hready.enabled, rfl, ?_, hnil⟩
      rw [hnil]
      rfl
    · intro hpos
      apply Traced.Ends.modifies_bind Keeps.trans
      · exact Keeps.setClean _ hready.clean []
      · rw [copyPath_of_cacheable hpath, if_neg (by simp), Int.toNat_natCast]
        generalize hslot : loadedSlot path start (readAt (files path) start blockSize).length
          ((readAt (files path) start blockSize).take blockSize) (nextAge u) = slot
        have hloaded : SlotShows files slot := by
          rw [← hslot]
          exact slotShows_loadedSlot _ hpath (by omega)
        have hkey : slot.valid = true ∧ slot.dirty = false ∧ slot.path = path ∧ slot.blockStart =
            start ∧
            slot.dataSize ≤ blockSize := by
          rw [← hslot]
          exact ⟨rfl, rfl, congrArg Prod.fst (copyPath_of_cacheable hpath), rfl, hcount⟩
        obtain ⟨hvalid, hclean, hpath', hblock, hsize⟩ := hkey
        refine Traced.Ends.pure (Keeps.refl _ []) ⟨⟨?_, ?_⟩, hready.enabled, ?_⟩
        · exact (hready.occupy hclean hpath' hblock hsize).clock (nextAge u)
        · apply (hshows.setClean hready.clean hclean _ _ fun _ _ => hloaded).clock
          · exact fun _ => hpath'.symm ▸ hpath
          · exact fun _ => hblock.symm ▸ hstart
        · change ((u.setSlot i slot).slots i).valid = true ∧ ((u.setSlot i slot).slots i).path = path ∧
            ((u.setSlot i slot).slots i).blockStart = start
          rw [setSlot_self]
          exact ⟨hvalid, hpath', hblock⟩

theorem copyFromSlot_shows {offset size : Nat} (h : Working settled files s)
    (hen : s.enabled = true) (hkeyed : Keyed path start i s) (hfrom : start ≤ offset)
    (hto : offset + size ≤ start + (readAt (files path) start blockSize).length) (hpos : 0 < size) :
    Traced.Ends Keeps (fun part t => (Working settled files t ∧ t.enabled = true) ∧
      part = some (readAt (files path) offset size))
      (copyFromSlot i offset size) s := by
  obtain ⟨hvalid, hpath, hstart⟩ := hkeyed
  obtain ⟨-, hsize, hdata⟩ := h.shows.slot i nofun hvalid
  rw [hpath, hstart] at hsize hdata
  have hpart : ((s.slots i).data.drop (offset - start)).take size =
      readAt (files path) offset size := by
    have hlen := length_readAt (files path) start blockSize
    apply take_drop_of_readAt hdata
    · omega
    · exact hfrom
    · omega
  unfold copyFromSlot
  apply Traced.Ends.reads_bind
  rw [hstart, if_neg (by omega), if_neg (by omega)]
  have hsame := sameSlots_setAge s i (nextAge s) (nextAge s)
  apply Traced.Ends.modifies_bind Keeps.trans fun _ _ _ hheld => Or.inl (hheld.congr hsame)
  rw [hpart]
  exact Traced.Ends.pure (Keeps.refl _ []) ⟨⟨⟨h.ok.congr hsame, h.shows.congr hsame rfl⟩, hen⟩, rfl⟩

def fileRead (file : List UInt8) (offset size : Nat) : Int × List UInt8 :=
  (int32 (readAt file offset size).length, readAt file offset size)

theorem readFrom_shows {offset size : Nat} (hpath : pathIsCacheable path = true)
    (hfit : offset + size ≤ 2 ^ 32) (rounds : Nat) (n : Nat) (hn : n ≤ size)
    (hrounds : size - n ≤ rounds) (hbytes : n = (readAt (files path) offset n).length)
    (h : Working settled files s) (hen : s.enabled = true) :
    Traced.Ends Keeps (fun r t => (Working settled files t ∧ t.enabled = true) ∧
      r = fileRead (files path) offset size)
      (readFrom fileFlusher fileLoader path offset size rounds (readAt (files path) offset n)) s := by
  refine readFrom_blocks (I := fun t => Working settled files t ∧ t.enabled = true)
    (B := Keyed path) (fun s => Keeps.refl s [])
    Keeps.trans hfit ?_ ?_ rounds n hn hrounds hbytes ⟨h, hen⟩
  · intro start current want bytes s hstart hsmall h
    refine (fillSlot_shows hpath hstart hsmall current want bytes h.1 h.2).mono fun fill t ht =>
      ⟨⟨ht.1, ht.2.1⟩, ?_⟩
    cases fill with
    | stop _ _ => exact ht.2.2
    | slot i =>
      have hkeyed : Keyed path start i t := ht.2.2
      obtain ⟨-, hsize, -⟩ := ht.1.shows.slot i nofun hkeyed.1
      rw [hkeyed.2.1, hkeyed.2.2] at hsize
      exact ⟨hkeyed, hsize⟩
  · intro start i o n s h hkeyed hfrom hto hpos
    exact copyFromSlot_shows h.1 h.2 hkeyed hfrom hto hpos

theorem map_callFlusher_of_eq {σ : Type} {fl : Flushers σ} {flusher offset : Nat}
    {data : List UInt8} {s : Cache σ} {r : Int} {m : σ}
    (h : fl flusher path offset data s.machine = (r, m)) :
    (some <$> callFlusher fl flusher path offset data) s =
      (some r, { s with machine := m }, [⟨flusher, path, offset, data, r⟩]) := by
  have heq : (some <$> callFlusher fl flusher path offset data) s =
      (some (fl flusher path offset data s.machine).1, { s with machine := (fl flusher path offset data s.machine).2 },
        [⟨flusher, path, offset, data, (fl flusher path offset data s.machine).1⟩]) := rfl
  rw [heq, h]

theorem fileFlusher_eq (flusher offset : Nat) {data : List UInt8} (files : Files)
    (hlen : data.length < 2 ^ 31) :
    fileFlusher flusher path offset data files =
      ((data.length : Int), files.write path offset data) := by
  unfold fileFlusher Files.write
  rw [int32_of_lt hlen]

section

variable {offset : Nat} {data : List UInt8}

theorem writeOut_shows (flusher : Nat) (h : Working pending files s) (hen : s.enabled = true)
    (hstart : start % blockSize = 0) (hfrom : start ≤ offset)
    (hto : offset + data.length ≤ start + blockSize) (habsent : Absent s path start)
    (hpending : ∀ path' x, pending path' x → path' = path ∧ x < offset)
    (hroom : offset ≤ (files path).length ∨
      ∀ i, (s.slots i).valid = true → (s.slots i).path = path → (s.slots i).dataSize = blockSize) :
    Traced.Ends Keeps (fun done t => (Working settled (files.write path offset data) t ∧ t.enabled = true) ∧
      done = some (data.length : Int)) (some <$> callFlusher fileFlusher flusher path offset data) s := by
  have hlen : data.length < 2 ^ 31 := by
    unfold blockSize at hto
    omega
  apply Traced.Ends.of_eq (map_callFlusher_of_eq (fileFlusher_eq flusher offset s.machine hlen))
  · exact fun _ _ _ hheld => Or.inl hheld
  · exact ⟨⟨⟨h.ok.machine _, h.shows.writeBehind hstart hfrom hto habsent hpending hroom⟩, hen⟩,
      rfl⟩

def NoShort (s : Cache Files) (path : Path) (start : Nat) : Prop :=
  ∀ i, (s.slots i).valid = true → (s.slots i).path = path → (s.slots i).blockStart ≠ start →
    (s.slots i).dataSize = blockSize

theorem writePart_shows (flusher : Nat) (h : Working pending files s) (hen : s.enabled = true)
    (hstart : start % blockSize = 0) (hfrom : start ≤ offset)
    (hto : offset + data.length ≤ start + blockSize)
    (hpending : ∀ path' x, pending path' x → path' = path ∧ x < offset)
    (hroom : offset ≤ (files path).length ∨ NoShort s path start) :
    Traced.Ends Keeps (fun done t => (Working settled (files.write path offset data) t ∧ t.enabled = true) ∧
      done = some (data.length : Int)) (writePart fileFlusher path start offset data flusher) s := by
  unfold writePart
  apply Traced.Ends.reads_bind
  rw [id]
  cases hfind : find path start s with
  | none =>
    have habsent := find_none h.ok hfind
    apply writeOut_shows flusher h hen hstart hfrom hto habsent hpending
    exact hroom.imp_right fun hshort j hvalid hpath => hshort j hvalid hpath
      (habsent j hvalid hpath)
  | some i =>
    obtain ⟨hvalid, hkey, hblock, -⟩ := find_some hfind
    -- The slot of the block is given up, and the bytes go to the file.
    have hgiven {t : Cache Files} (h : Working pending files t) (hen : t.enabled = true) (hkeys : SameKeys s t)
        (hclean : (t.slots i).dirty = false) :
        Traced.Ends Keeps (fun done t => (Working settled (files.write path offset data) t ∧ t.enabled = true) ∧
          done = some (data.length : Int))
          (Traced.modifies (fun s => s.setSlot i { s.slots i with valid := false }) >>= fun _ =>
            some <$> callFlusher fileFlusher flusher path offset data) t := by
      have hother {j : Fin defaultSlots} (hj : ((t.setSlot i { t.slots i with valid := false }).slots j).valid = true) :
          j ≠ i ∧ (t.setSlot i { t.slots i with valid := false }).slots j = t.slots j := by
        have hji : j ≠ i := by
          rintro rfl
          rw [setSlot_self] at hj
          cases hj
        exact ⟨hji, setSlot_ne t _ hji⟩
      have habsent : Absent (t.setSlot i { t.slots i with valid := false }) path start := by
        intro j hj hpath hstart
        obtain ⟨hji, hsame⟩ := hother hj
        rw [hsame] at hj hpath hstart
        apply hji
        apply h.ok.unique j i hj
        · rw [hkeys.valid]
          exact hvalid
        · rw [hpath, hkeys.path, hkey]
        · rw [hstart, hkeys.blockStart, hblock]
      apply Traced.Ends.modifies_bind Keeps.trans
      · exact Keeps.setClean _ hclean []
      · have hworking : Working pending files (t.setSlot i { t.slots i with valid := false }) :=
          ⟨h.ok.setInvalid hclean hclean rfl, h.shows.setInvalid hclean hclean rfl⟩
        apply writeOut_shows flusher hworking hen hstart hfrom hto habsent hpending
        refine hroom.imp_right fun hshort j hj hpath => ?_
        have hne := habsent j hj hpath
        have hsame := (hother hj).2
        rw [hsame] at hj hpath hne ⊢
        rw [hkeys.valid] at hj
        rw [hkeys.path] at hpath
        rw [hkeys.blockStart] at hne
        rw [hkeys.dataSize]
        exact hshort j hj hpath hne
    dsimp only
    apply Traced.Ends.ite
    · intro hdirty
      obtain ⟨hresult, hshows⟩ := flushSlot_shows h.ok h.shows hdirty
      apply Traced.Ends.bind Keeps.trans ((flushSlot_ends fileFlusher h.ok hdirty).and
        (P := fun ok t => ok = true ∧ Shows none pending files t) ⟨hresult, hshows⟩)
      rintro ok t ⟨⟨hok, hkeys, hclean⟩, rfl, hshows⟩
      exact hgiven ⟨hok, hshows⟩ (hkeys.enabled.trans hen) hkeys (hclean rfl)
    · exact fun hdirty => hgiven h hen (SameKeys.refl s) ((Bool.not_eq_true _).mp hdirty)

structure Taken (pending : Path → Nat → Prop) (files : Files) (path : Path) (start : Nat) (s t : Cache Files)
    (i : Fin defaultSlots) : Prop where
  ok : SlotsOk t
  enabled : t.enabled = true
  keyed : Keyed path start i t
  shows : Shows (some i) pending files t
  others : ∀ j, j ≠ i → (t.slots j).valid = true → (s.slots j).valid = true ∧ (t.slots j).path = (s.slots j).path ∧
    (t.slots j).blockStart = (s.slots j).blockStart ∧ (t.slots j).dataSize = (s.slots j).dataSize

theorem Shows.weaken (h : Shows none pending files s) (stale : Option (Fin defaultSlots)) :
    Shows stale pending files s :=
  ⟨h.cacheable, h.aligned, h.flusher, fun i _ hi => h.slot i nofun hi, h.zero, h.behind⟩

theorem slotForWrite_shows (flusher : Nat) (hpath : pathIsCacheable path = true)
    (hstart : start % blockSize = 0) (h : Working pending files s) (hen : s.enabled = true) :
    Traced.Ends Keeps (fun r t => ∃ i, r.1 = some i ∧ Taken pending files path start s t i)
      (slotForWrite fileFlusher path start flusher) s := by
  unfold slotForWrite
  apply Traced.Ends.reads_bind
  rw [id]
  cases hfind : find path start s with
  | some i =>
    obtain ⟨hvalid, hkey, hblock, -⟩ := find_some hfind
    dsimp only
    apply Traced.Ends.ite
    · rintro ⟨hdirty, -⟩
      obtain ⟨hresult, hshows⟩ := flushSlot_shows h.ok h.shows hdirty
      apply Traced.Ends.bind Keeps.trans ((flushSlot_ends fileFlusher h.ok hdirty).and
        (P := fun ok t => ok = true ∧ Shows none pending files t) ⟨hresult, hshows⟩)
      rintro ok t ⟨⟨hok, hkeys, -⟩, rfl, hshows⟩
      refine Traced.Ends.pure (Keeps.refl t []) ⟨i, rfl, hok, hkeys.enabled.trans hen, ?_,
        hshows.weaken _, ?_⟩
      · exact ⟨(hkeys.valid i).trans hvalid, (hkeys.path i).trans hkey,
          (hkeys.blockStart i).trans hblock⟩
      · exact fun j _ hj => ⟨(hkeys.valid j).symm.trans hj, hkeys.path j, hkeys.blockStart j,
          hkeys.dataSize j⟩
    · intro _
      refine Traced.Ends.pure (Keeps.refl s []) ⟨i, rfl, h.ok, hen, ⟨hvalid, hkey, hblock⟩,
        h.shows.weaken _, ?_⟩
      exact fun j _ hj => ⟨hj, rfl, rfl, rfl⟩
  | none =>
    apply Traced.Ends.bind Keeps.trans (((chooseSlot_ready fileFlusher h.ok hen hfind).and
      (P := fun chosen t => chosen ≠ none ∧ Shows none pending files t) (chooseSlot_shows h)).and
      (P := fun _ t => SameKeys s t) (chooseSlot_ends fileFlusher h.ok).2.2.1)
    rintro chosen t ⟨⟨⟨hok, hen, hready⟩, hchosen, hshows⟩, hkeys⟩
    obtain ⟨i, rfl⟩ := Option.ne_none_iff_exists'.mp hchosen
    have hready := hready i rfl
    have hkey : (freshSlot path start (nextAge t)).path = path :=
      congrArg Prod.fst (copyPath_of_cacheable hpath)
    dsimp only
    apply Traced.Ends.modifies_bind Keeps.trans
    · exact Keeps.setClean _ hready.clean []
    · rw [copyPath_of_cacheable hpath, if_neg (by simp)]
      refine Traced.Ends.pure (Keeps.refl _ []) ⟨i, rfl, ?_, hen, ?_, ?_, fun j hji hj => ?_⟩
      · exact (hready.occupy rfl hkey rfl (Nat.le_refl _)).clock (nextAge t)
      · change ((t.setSlot i (freshSlot path start (nextAge t))).slots i).valid = true ∧
          ((t.setSlot i (freshSlot path start (nextAge t))).slots i).path = path ∧
          ((t.setSlot i (freshSlot path start (nextAge t))).slots i).blockStart = start
        rw [setSlot_self]
        exact ⟨rfl, hkey, rfl⟩
      · apply ((hshows.weaken (some i)).setClean hready.clean rfl _ _ fun hne _ => absurd rfl hne).clock
        · exact fun _ => hkey.symm ▸ hpath
        · exact fun _ => hstart
      · have hsame : (t.setSlot i (freshSlot path start (nextAge t))).slots j = t.slots j :=
          setSlot_ne t _ hji
        change ((t.setSlot i (freshSlot path start (nextAge t))).slots j).valid = true at hj
        change _ ∧ ((t.setSlot i (freshSlot path start (nextAge t))).slots j).path = _ ∧
          ((t.setSlot i (freshSlot path start (nextAge t))).slots j).blockStart = _ ∧
          ((t.setSlot i (freshSlot path start (nextAge t))).slots j).dataSize = _
        rw [hsame] at hj ⊢
        exact ⟨(hkeys.valid j).symm.trans hj, hkeys.path j, hkeys.blockStart j, hkeys.dataSize j⟩

theorem Shows.settle (h : Shows none pending files s) (hpending : ∀ path x, ¬ pending path x) :
    Shows none settled files s := by
  refine ⟨h.cacheable, h.aligned, h.flusher, h.slot, fun _ _ hsettled => hsettled.elim,
    fun path x hx => ?_⟩
  exact Or.inl ((h.behind path x hx).resolve_right fun hpend => hpending path x hpend.1)

theorem Files.write_nil (files : Files) {path : Path} {offset : Nat}
    (h : offset ≤ (files path).length) :
    files.write path offset [] = files := by
  unfold Files.write
  rw [writeAt_nil h, Function.update_eq_self]

theorem Files.write_drop (files : Files) (path : Path) {copied want : Nat}
    (hwant : copied + want ≤ data.length) :
    (files.write path (offset + copied) ((data.drop copied).take want)).write path
      (offset + (copied + want))
        (data.drop (copied + want)) = files.write path (offset + copied) (data.drop copied) := by
  have hlen : ((data.drop copied).take want).length = want := by
    rw [List.length_take, List.length_drop]
    omega
  have hoffset : offset + (copied + want) = offset + copied + ((data.drop copied).take want).length := by omega
  rw [hoffset, Files.write_write, ← List.drop_drop, List.take_append_drop]

/-- A write that is going on: what it has left pending lies before it, no slot will miss zeros that
it writes, and nothing will be pending when it ends. -/
structure Going (pending : Path → Nat → Prop) (files : Files) (path : Path) (offset : Nat) (data : List UInt8) (copied : Nat)
    (s : Cache Files) : Prop where
  le : copied ≤ data.length
  working : Working pending files s
  enabled : s.enabled = true
  before : ∀ path' x, pending path' x → path' = path ∧ x < offset + copied
  room : offset + copied ≤ (files path).length ∨ NoShort s path ((offset + copied) / blockSize * blockSize)
  settles : (∀ path x, ¬ pending path x) ∧ offset + copied ≤ (files path).length ∨
    copied < data.length ∧ ((offset + copied) % blockSize ≠ 0 ∨ (offset + data.length) % blockSize ≠ 0)

theorem Going.ends {copied : Nat} (h : Going pending files path offset data copied s)
    (hge : copied ≥ data.length) :
    Working settled (files.write path (offset + copied) (data.drop copied)) s := by
  obtain ⟨hnone, hle⟩ := h.settles.resolve_right fun hlt => absurd hlt.1 (Nat.not_lt_of_le hge)
  rw [List.drop_of_length_le hge, Files.write_nil files hle]
  exact ⟨h.working.ok, h.working.shows.settle hnone⟩

theorem writeFrom_shows (flusher : Nat) (hpath : pathIsCacheable path = true) (rounds copied : Nat)
    (hrounds : data.length - copied ≤ rounds) (h : Going pending files path offset data copied s) :
    Traced.Ends (fun _ _ _ => True)
      (fun _ t => Working settled (files.write path (offset + copied) (data.drop copied)) t)
      (writeFrom fileFlusher path offset data flusher rounds copied) s := by
  induction rounds generalizing s pending files copied with
  | zero =>
    unfold writeFrom
    exact Traced.Ends.pure trivial (h.ends (by omega))
  | succ rounds ih =>
    unfold writeFrom
    apply Traced.Ends.ite
    · exact fun hge => Traced.Ends.pure trivial (h.ends hge)
    intro hlt
    obtain ⟨-, hworking, hen, hbefore, hroom, hsettles⟩ := h
    have hmod : (offset + copied) / blockSize * blockSize + (offset + copied) % blockSize =
        offset + copied :=
      Nat.div_add_mod' _ _
    have hlt' : (offset + copied) % blockSize < blockSize := Nat.mod_lt _ (by decide)
    have hstart : (offset + copied) / blockSize * blockSize % blockSize = 0 := Nat.mul_mod_left _ _
    unfold writeRound
    dsimp only
    generalize (offset + copied) / blockSize * blockSize = start at hmod hstart hroom ⊢
    generalize hwant : min (blockSize - (offset + copied - start)) (data.length - copied) = want
    have hle : copied + want ≤ data.length := by omega
    have hlen : ((data.drop copied).take want).length = want := by
      rw [List.length_take, List.length_drop]
      omega
    rw [← Files.write_drop files path hle]
    apply Traced.Ends.ite
    · intro hpart
      apply Traced.Ends.bind (fun _ _ => trivial)
        (writePart_shows flusher hworking hen hstart (by omega) (by omega) hbefore hroom).any
      rintro done t ⟨⟨hworking, hen⟩, rfl⟩
      rw [hlen]
      apply Traced.Ends.ite
      · intro hbad
        omega
      intro _
      apply Traced.Ends.ite
      · exact fun hne => absurd rfl hne
      intro _
      apply ih (copied + want) (by omega)
      -- The file reaches up to the end of the part.
      have hroom : offset + (copied + want) ≤
          ((files.write path (offset + copied) ((data.drop copied).take want)) path).length := by
        rw [Files.write_self, length_writeAt]
        omega
      exact ⟨hle, hworking, hen, fun _ _ hx => hx.elim, Or.inl hroom,
        Or.inl ⟨fun _ _ hx => hx, hroom⟩⟩
    · intro hfull
      rw [not_or, not_not, not_not] at hfull
      obtain ⟨hzero, rfl⟩ := hfull
      obtain rfl : start = offset + copied := by omega
      apply Traced.Ends.bind (fun _ _ => trivial) (slotForWrite_shows flusher hpath hstart hworking hen).any
      rintro ⟨chosen, failed⟩ t ⟨i, rfl, htaken⟩
      obtain ⟨hok, hen, hkeyed, hshows, hothers⟩ := htaken
      have hroom' : offset + copied ≤ (files path).length ∨
          ∀ j, j ≠ i → (t.slots j).valid = true → (t.slots j).path = path → (t.slots j).dataSize = blockSize := by
        refine hroom.imp_right fun hshort j hji hj hpath => ?_
        obtain ⟨hvalid, hsame, hblock, hsize⟩ := hothers j hji hj
        rw [hsize]
        apply hshort j hvalid (hsame.symm.trans hpath)
        intro heq
        apply hji
        apply hok.unique j i hj hkeyed.1 (hpath.trans hkeyed.2.1.symm)
        rw [hblock, heq, hkeyed.2.2]
      have hput : Shows none _ _ (putBlock flusher ((data.drop copied).take blockSize) i t) :=
        hshows.putBlock hok hkeyed hlen hbefore hroom'
      apply Traced.Ends.modifies_bind (fun _ _ => trivial) trivial
      apply ih (copied + blockSize) (by omega)
      have hroom'' : offset + (copied + blockSize) ≤
          ((files.write path (offset + copied) ((data.drop copied).take blockSize)) path).length := by
        rw [Files.write_self, length_writeAt]
        omega
      refine ⟨hle, ⟨hok.putBlock hkeyed.1 hlen, hput⟩, hen, fun path' x hx => ?_, Or.inl hroom'',
        ?_⟩
      · rcases hx with hx | hx
        · obtain ⟨hpath', hx⟩ := hbefore path' x hx
          exact ⟨hpath', by omega⟩
        · exact ⟨hx.1, by omega⟩
      · rcases hsettles with ⟨hnone, hin⟩ | ⟨-, htail⟩
        · refine Or.inl ⟨fun path' x hx => ?_, hroom''⟩
          rcases hx with hx | hx
          · exact hnone path' x hx
          · omega
        · right
          unfold blockSize at *
          omega

end

theorem flushAll_shows (is : List (Fin defaultSlots)) (flushed : Nat)
    (h : Working pending files s) :
    Traced.Ends (fun _ _ _ => True) (fun _ t => Working pending files t)
      (flushAll fileFlusher is flushed) s := by
  induction is generalizing s flushed with
  | nil => exact Traced.Ends.pure trivial h
  | cons i is ih =>
    unfold flushAll
    apply Traced.Ends.reads_bind
    apply Traced.Ends.ite
    · rintro ⟨-, hdirty⟩
      apply Traced.Ends.bind (fun _ _ => trivial) ((flushSlot_ends fileFlusher h.ok hdirty).and
        (P := fun ok t => ok = true ∧ Shows none pending files t) (flushSlot_shows h.ok h.shows hdirty)).any
      rintro ok t ⟨⟨hok, -⟩, -, hshows⟩
      exact ih _ ⟨hok, hshows⟩
    · exact fun _ => ih flushed h

theorem fsCacheFlush_shows (h : Working pending files s) :
    Traced.Ends (fun _ _ _ => True) (fun _ t => Working pending files t)
      (fsCacheFlush fileFlusher) s := by
  unfold fsCacheFlush
  apply Traced.Ends.reads_bind
  exact flushAll_shows _ 0 h

theorem invalidateAll_shows (path : Option Path) (is : List (Fin defaultSlots))
    (h : Working pending files s) :
    Traced.Ends (fun _ _ _ => True) (fun _ t => Working pending files t)
      (invalidateAll fileFlusher path is) s := by
  induction is generalizing s with
  | nil => exact Traced.Ends.pure trivial h
  | cons i is ih =>
    unfold invalidateAll
    apply Traced.Ends.reads_bind
    apply Traced.Ends.ite
    · rintro ⟨-, -⟩
      have hflush : Traced.Ends (fun _ _ _ => True) (fun _ t => Working pending files t ∧ (t.slots i).dirty = false)
          (if (s.slots i).dirty then flushSlot fileFlusher i else pure true) s := by
        apply Traced.Ends.ite
        · intro hdirty
          obtain ⟨hresult, hshows⟩ := flushSlot_shows h.ok h.shows hdirty
          obtain ⟨hok, -, hclean⟩ := (flushSlot_ends fileFlusher h.ok hdirty).2
          exact ⟨trivial, ⟨hok, hshows⟩, hclean hresult⟩
        · exact fun hdirty => Traced.Ends.pure trivial ⟨h, (Bool.not_eq_true _).mp hdirty⟩
      apply Traced.Ends.bind (fun _ _ => trivial) hflush
      rintro ok t ⟨h, hclean⟩
      apply Traced.Ends.ite
      · intro _
        apply Traced.Ends.modifies_bind (fun _ _ => trivial) trivial
        exact ih ⟨h.ok.setInvalid hclean rfl rfl, h.shows.setInvalid hclean rfl rfl⟩
      · exact fun _ => ih h
    · exact fun _ => ih h

theorem fsCacheInvalidatePath_shows (path : Option Path) (h : Working pending files s) :
    Traced.Ends (fun _ _ _ => True) (fun _ t => Working pending files t)
      (fsCacheInvalidatePath fileFlusher path) s := by
  unfold fsCacheInvalidatePath
  apply Traced.Ends.reads_bind
  exact invalidateAll_shows path _ h

theorem drain_shows (h : Working pending files s) :
    Traced.Ends (fun _ _ _ => True) (fun _ t => Working pending files t) (drain fileFlusher) s := by
  unfold drain
  apply Traced.Ends.bind (fun _ _ => trivial) (fsCacheFlush_shows h)
  rintro - t h
  apply Traced.Ends.reads_bind
  apply Traced.Ends.ite
  · exact fun _ => Traced.Ends.pure trivial h
  · intro _
    apply Traced.Ends.bind (fun _ _ => trivial) (fsCacheInvalidatePath_shows none h)
    exact fun _ t h => Traced.Ends.pure trivial h

theorem Shows.settings (h : Shows none pending files s) (enabled : Bool) (configured : Nat)
    (flusher : Option Nat) :
    Shows none pending files { s with enabled := enabled, configuredSlots := configured, flusher := flusher } :=
  ⟨h.cacheable, h.aligned, h.flusher, h.slot, h.zero, h.behind⟩

theorem fsCacheCtl_shows (cmd arg1 : UInt64) (h : Working pending files s) :
    Traced.Ends (fun _ _ _ => True) (fun _ t => Shows none pending files t)
      (fsCacheCtl fileFlusher cmd arg1) s := by
  -- Draining where it is necessary.
  have hdrain (c : Prop) [Decidable c] : Traced.Ends (fun _ _ _ => True) (fun _ t => Working pending files t)
      (if c then drain fileFlusher else pure true) s := by
    apply Traced.Ends.ite
    · exact fun _ => drain_shows h
    · exact fun _ => Traced.Ends.pure trivial h
  unfold fsCacheCtl
  apply Traced.Ends.ite
  · exact fun _ => Traced.Ends.pure trivial h.shows
  intro _
  apply Traced.Ends.ite
  · intro _
    apply Traced.Ends.bind (fun _ _ => trivial) (fsCacheFlush_shows h)
    exact fun _ t h => Traced.Ends.pure trivial h.shows
  intro _
  apply Traced.Ends.ite
  · intro _
    apply Traced.Ends.bind (fun _ _ => trivial) (hdrain _)
    intro ok t h
    apply Traced.Ends.ite
    · exact fun _ => Traced.Ends.pure trivial h.shows
    · intro _
      apply Traced.Ends.modifies_bind (fun _ _ => trivial) trivial
      exact Traced.Ends.pure trivial (h.shows.settings _ _ _)
  intro _
  apply Traced.Ends.ite
  · intro _
    dsimp only
    apply Traced.Ends.reads_bind
    apply Traced.Ends.bind (fun _ _ => trivial) (hdrain _)
    intro ok t h
    apply Traced.Ends.ite
    · exact fun _ => Traced.Ends.pure trivial h.shows
    · intro _
      apply Traced.Ends.modifies_bind (fun _ _ => trivial) trivial
      exact Traced.Ends.pure trivial (h.shows.settings _ _ _)
  intro _
  apply Traced.Ends.ite
  · intro _
    apply Traced.Ends.bind (fun _ _ => trivial) (drain_shows h)
    exact fun _ t h => Traced.Ends.pure trivial h.shows
  · exact fun _ => Traced.Ends.pure trivial h.shows

def returned (r : Int × List UInt8) : Int × List UInt8 := (r.1, r.2.take r.1.toNat)

def directRead (files : Files) (path : Option Path) (offset : UInt32) (buffer : Bool)
    (size : UInt32) (loader : Option Nat) : Int × List UInt8 :=
  if size = 0 then (0, [])
  else
    match path, loader with
    | some path, some _ =>
      if !buffer then (-1, [])
      else if offset.toNat > 0xFFFFFFFF - (size.toNat - 1) then (-1, [])
      else fileRead (files path) offset.toNat size.toNat
    | _, _ => (-1, [])

def Refused (s : Cache Files) (offset : UInt32) (data : Buffer) (flusher : Option Nat) : Prop :=
  data.val = [] ∨ offset.toNat > 0xFFFFFFFF - (data.val.length - 1) ∨ flusher.or s.flusher = none

instance (s : Cache Files) (offset : UInt32) (data : Buffer) (flusher : Option Nat) :
    Decidable (Refused s offset data flusher) := inferInstanceAs (Decidable (_ ∨ _ ∨ _))

def applied (s : Cache Files) (files : Files) : Action → Files
  | .writeAt (some path) offset (some data) flusher =>
    if Refused s offset data flusher then files else files.write path offset.toNat data.val
  | _ => files

theorem machine_eq (h : Working settled files s)
    (hno : ∀ i, (s.slots i).valid = true → (s.slots i).path ≠ path) :
    s.machine path = files path := by
  apply List.ext_getElem?
  intro x
  have hclean : NotDirty s path x := fun i hi hpath => absurd hpath (hno i (h.ok.valid i hi))
  exact (h.shows.behind path x hclean).resolve_right fun hpend => hpend.1

theorem no_slots (h : Working settled files s)
    (hdirect : s.enabled = false ∨ pathIsCacheable path = false) (i : Fin defaultSlots)
    (hi : (s.slots i).valid = true) : (s.slots i).path ≠ path := by
  rcases hdirect with hoff | hlong
  · rw [h.ok.enabled hoff i] at hi
    cases hi
  · rintro rfl
    rw [h.shows.cacheable i hi] at hlong
    cases hlong

def fileLoaders : Loaders Files := fun _ => fileLoader

theorem fsCacheReadAt_shows (path : Option Path) (offset : UInt32) (buffer : Bool) (size : UInt32)
    (loader : Option Nat) (h : Working settled files s) :
    Traced.Ends Keeps (fun r t => Working settled files t ∧
      returned r = returned (directRead files path offset buffer size loader))
      (fsCacheReadAt fileFlusher path offset buffer size (loader.map fileLoaders)) s := by
  unfold fsCacheReadAt directRead
  by_cases hsize : size = 0
  · rw [if_pos hsize, if_pos hsize]
    exact Traced.Ends.pure (Keeps.refl s []) ⟨h, rfl⟩
  rw [if_neg hsize, if_neg hsize]
  cases path with
  | none => exact Traced.Ends.pure (Keeps.refl s []) ⟨h, rfl⟩
  | some path =>
    cases loader with
    | none => exact Traced.Ends.pure (Keeps.refl s []) ⟨h, rfl⟩
    | some loader =>
      dsimp only [Option.map_some]
      cases buffer with
      | false => exact Traced.Ends.pure (Keeps.refl s []) ⟨h, rfl⟩
      | true =>
        have hbuffer : ¬ (!true) = true := by decide
        rw [if_neg hbuffer, if_neg hbuffer]
        by_cases hfit : offset.toNat > 0xFFFFFFFF - (size.toNat - 1)
        · rw [if_pos hfit, if_pos hfit]
          exact Traced.Ends.pure (Keeps.refl s []) ⟨h, rfl⟩
        rw [if_neg hfit, if_neg hfit]
        apply Traced.Ends.reads_bind
        apply Traced.Ends.ite
        · intro hdirect
          rw [Bool.or_eq_true, Bool.not_eq_true', Bool.not_eq_true'] at hdirect
          have hcall := callLoader_file path offset.toNat size.toNat s
          rw [machine_eq h (no_slots h hdirect)] at hcall
          apply Traced.Ends.bind_same hcall
          refine Traced.Ends.pure (Keeps.refl s []) ⟨h, ?_⟩
          unfold returned fileRead
          rw [List.take_take, Nat.min_self]
        · intro hcached
          rw [Bool.or_eq_true, not_or, Bool.not_eq_true', Bool.not_eq_true', Bool.not_eq_false,
            Bool.not_eq_false] at hcached
          have hend : offset.toNat + size.toNat ≤ 2 ^ 32 := by
            have hoffset := offset.toNat_lt
            have hlimit := size.toNat_lt
            omega
          change Traced.Ends Keeps _ (readFrom fileFlusher fileLoader path offset.toNat size.toNat size.toNat
            (readAt (files path) offset.toNat 0)) s
          apply (readFrom_shows hcached.2 hend size.toNat 0 (Nat.zero_le _) (Nat.le_refl _) rfl h hcached.1).mono
          rintro r t ⟨⟨h, -⟩, rfl⟩
          exact ⟨h, rfl⟩

/-- A call that leaves no hole that the cache does not know of: a write call that goes to the slots
begins within the file or at its end, or it does not consist of full blocks only and no slot but
that of its first block holds a short block of the file. -/
def NoHole (s : Cache Files) (files : Files) : Action → Prop
  | .writeAt (some path) offset (some data) flusher =>
    Refused s offset data flusher ∨ s.enabled = false ∨ pathIsCacheable path = false ∨
      offset.toNat ≤ (files path).length ∨
      (offset.toNat % blockSize ≠ 0 ∨ (offset.toNat + data.val.length) % blockSize ≠ 0) ∧
        NoShort s path (offset.toNat / blockSize * blockSize)
  | _ => True

theorem Working.writeDirect (h : Working settled files s)
    (hno : ∀ i, (s.slots i).valid = true → (s.slots i).path ≠ path) (offset : Nat)
    (data : List UInt8) :
    Working settled (files.write path offset data) { s with machine := Files.write s.machine path offset data } := by
  refine ⟨h.ok.machine _, h.shows.cacheable, h.shows.aligned, h.shows.flusher,
    fun i hstale hi => ?_,
    fun _ _ hsettled => hsettled.elim, fun path' x hx => Or.inl ?_⟩
  · exact (h.shows.slot i hstale hi).write fun hpath => absurd hpath (hno i hi)
  · change (Files.write s.machine path offset data path')[x]? = _
    by_cases hpath : path' = path
    · rw [hpath, Files.write_self, Files.write_self, machine_eq h hno]
    · rw [Files.write_ne _ _ _ hpath, Files.write_ne _ _ _ hpath]
      exact (h.shows.behind path' x hx).resolve_right fun hpend => hpend.1

theorem fsCacheWriteAt_shows (path : Option Path) (offset : UInt32) (data : Option Buffer)
    (flusher : Option Nat) (h : Working settled files s)
    (hhole : NoHole s files (.writeAt path offset data flusher)) :
    Traced.Ends (fun _ _ _ => True)
      (fun _ t => Working settled (applied s files (.writeAt path offset data flusher)) t)
      (fsCacheWriteAt fileFlusher path offset (data.map Subtype.val) flusher) s := by
  unfold fsCacheWriteAt
  cases path with
  | none => exact Traced.Ends.ite (fun _ => Traced.Ends.pure trivial h) fun _ => Traced.Ends.pure trivial h
  | some path =>
    cases data with
    | none => exact Traced.Ends.ite (fun _ => Traced.Ends.pure trivial h) fun _ => Traced.Ends.pure trivial h
    | some data =>
      rw [Option.map_some]
      by_cases hrefused : Refused s offset data flusher
      · -- The call returns at once.
        have hfiles : applied s files (.writeAt (some path) offset (some data) flusher) = files :=
          if_pos hrefused
        rw [hfiles]
        apply Traced.Ends.ite
        · exact fun _ => Traced.Ends.pure trivial h
        intro hempty
        apply Traced.Ends.ite
        · exact fun _ => Traced.Ends.pure trivial h
        intro hfit
        apply Traced.Ends.reads_bind
        have hnone : flusher.or s.flusher = none := by
          rcases hrefused with hnil | hover | hnone
          · rw [hnil] at hempty
            exact absurd rfl hempty
          · exact absurd hover hfit
          · exact hnone
        rw [id, hnone]
        exact Traced.Ends.pure trivial h
      · have hfiles : applied s files (.writeAt (some path) offset (some data) flusher) =
            files.write path offset.toNat data.val := if_neg hrefused
        rw [hfiles]
        unfold Refused at hrefused
        rw [not_or, not_or] at hrefused
        obtain ⟨hne, hfit, hflusher⟩ := hrefused
        obtain ⟨f, hf⟩ := Option.ne_none_iff_exists'.mp hflusher
        rw [if_neg fun hempty => hne (Option.some.inj hempty)]
        dsimp only
        rw [if_neg hfit]
        apply Traced.Ends.reads_bind
        rw [id, hf]
        dsimp only
        apply Traced.Ends.ite
        · intro hdirect
          rw [Bool.or_eq_true, Bool.not_eq_true', Bool.not_eq_true'] at hdirect
          exact ⟨trivial, h.writeDirect (no_slots h hdirect) offset.toNat data.val⟩
        · intro hcached
          rw [Bool.or_eq_true, not_or, Bool.not_eq_true', Bool.not_eq_true', Bool.not_eq_false,
            Bool.not_eq_false] at hcached
          have hpos : 0 < data.val.length := List.length_pos_of_ne_nil hne
          have hcases : offset.toNat ≤ (files path).length ∨
              (offset.toNat % blockSize ≠ 0 ∨ (offset.toNat + data.val.length) % blockSize ≠ 0) ∧
                NoShort s path (offset.toNat / blockSize * blockSize) := by
            rcases hhole with hrefused | hoff | hlong | hcases
            · exact absurd hrefused (by rw [Refused, not_or, not_or]; exact ⟨hne, hfit, hflusher⟩)
            · exact absurd (hcached.1.symm.trans hoff) nofun
            · exact absurd (hcached.2.symm.trans hlong) nofun
            · exact hcases
          have hgoing : Going settled files path offset.toNat data.val 0 s := by
            refine ⟨Nat.zero_le _, h, hcached.1, fun _ _ hx => hx.elim,
              hcases.imp_right fun hc => hc.2, ?_⟩
            rcases hcases with hin | ⟨hpart, -⟩
            · exact Or.inl ⟨fun _ _ hx => hx, hin⟩
            · exact Or.inr ⟨hpos, hpart⟩
          exact writeFrom_shows f hcached.2 data.val.length 0 (Nat.le_refl _) hgoing

def fileStep : Cache Files × Files → Action → Option (Cache Files × Files)
  | (s, files), a => some ((perform fileFlusher fileLoaders a).state s, applied s files a)

theorem Working.step {s s' : Cache Files × Files} {a : Action} (h : Working settled s.2 s.1)
    (hhole : NoHole s.1 s.2 a) (hstep : fileStep s a = some s') : Working settled s'.2 s'.1 := by
  obtain ⟨s, files⟩ := s
  obtain rfl := Option.some.inj hstep
  dsimp only at h hhole ⊢
  cases a with
  | readAt path offset buffer size loader =>
    unfold perform
    exact (fsCacheReadAt_shows path offset buffer size loader h).2.1
  | writeAt path offset data flusher =>
    unfold perform
    rw [Traced.state_bind, Traced.state_pure]
    exact (fsCacheWriteAt_shows path offset data flusher h hhole).2
  | flush =>
    unfold perform
    rw [Traced.state_bind, Traced.state_pure]
    exact (fsCacheFlush_shows h).2
  | invalidatePath path =>
    unfold perform
    rw [Traced.state_bind, Traced.state_pure]
    exact (fsCacheInvalidatePath_shows path h).2
  | ctl cmd arg1 =>
    unfold perform
    rw [Traced.state_bind, Traced.state_pure]
    exact ⟨(fsCacheCtl_ends fileFlusher cmd arg1 h.ok).2, (fsCacheCtl_shows cmd arg1 h).2⟩
  | setFlusher flusher =>
    unfold perform
    rw [Traced.state_bind, Traced.state_pure]
    refine ⟨⟨h.ok.count, h.ok.valid, h.ok.full, h.ok.bounded, h.ok.active, h.ok.unique, h.ok.enabled⟩, ?_⟩
    exact h.shows.settings s.enabled s.configuredSlots flusher

theorem working_fsCacheInit (files : Files) : Working settled files (fsCacheInit files) := by
  refine ⟨slotsOk_fsCacheInit files, fun i hi => ?_, fun i hi => ?_, fun i hi => ?_,
    fun i _ hi => ?_,
    fun _ _ hsettled => hsettled.elim, fun _ _ _ => Or.inl rfl⟩
  · cases hi
  · cases hi
  · cases hi
  · cases hi

/-- In every run whose calls leave no hole, every read returns the byte count and the bytes of a
direct read of the file to which all writes have been applied. -/
theorem cacheTransparency_run (files : Files) {as : List Action} {t : Cache Files × Files}
    (h : RunWhile fileStep (fun s a => NoHole s.1 s.2 a) (fsCacheInit files, files) as t)
    (path : Option Path) (offset : UInt32) (buffer : Bool) (size : UInt32) (loader : Option Nat) :
    returned ((perform fileFlusher fileLoaders (.readAt path offset buffer size loader)).result t.1) =
      returned (directRead t.2 path offset buffer size loader) := by
  have hworking : Working settled t.2 t.1 :=
    h.invariant (fun _ _ _ hhole hworking hstep => Working.step hworking hhole hstep) (working_fsCacheInit files)
  unfold perform
  exact (fsCacheReadAt_shows path offset buffer size loader hworking).2.2

def oneByte : Files := fun path => if path = [47] then [7] else []

theorem cacheTransparency_run_append :
    ∃ t, RunWhile fileStep (fun s a => NoHole s.1 s.2 a) (fsCacheInit oneByte, oneByte)
        [.readAt (some [47]) 0 true 1 (some 0), .writeAt (some [47]) 1 (some ⟨[9], by decide⟩) (some 0)] t ∧
      returned ((perform fileFlusher fileLoaders (.readAt (some [47]) 0 true 2 (some 0))).result t.1) = (2, [7, 9]) := by
  have hhole (s : Cache Files) : NoHole s oneByte (.writeAt (some [47]) 1 (some ⟨[9], by decide⟩) (some 0)) :=
    Or.inr (Or.inr (Or.inr (Or.inl (by decide))))
  have hrun : ∃ t, RunWhile fileStep (fun s a => NoHole s.1 s.2 a) (fsCacheInit oneByte, oneByte)
      [.readAt (some [47]) 0 true 1 (some 0), .writeAt (some [47]) 1 (some ⟨[9], by decide⟩) (some 0)] t ∧
      t.2 = applied (fsCacheInit oneByte) oneByte (.writeAt (some [47]) 1 (some ⟨[9], by decide⟩) (some 0)) :=
    ⟨_, .cons trivial rfl (.cons (hhole _) rfl (.nil _)), rfl⟩
  obtain ⟨t, hrun, hfiles⟩ := hrun
  refine ⟨t, hrun, ?_⟩
  apply (cacheTransparency_run oneByte hrun (some [47]) 0 true 2 (some 0)).trans
  rw [hfiles]
  decide

def AlwaysTransparent : Prop :=
  ∀ (files : Files) (as : List Action) (t : Cache Files × Files), Run fileStep (fsCacheInit files, files) as t →
    ∀ (path : Option Path) (offset : UInt32) (buffer : Bool) (size : UInt32) (loader : Option Nat),
      returned ((perform fileFlusher fileLoaders (.readAt path offset buffer size loader)).result t.1) =
        returned (directRead t.2 path offset buffer size loader)

def farByte : Action := .writeAt (some [47]) 4096 (some ⟨[9], by decide⟩) (some 0)

/-- The file is read, so that its short block is cached; then a byte is written to its second block;
the read of two bytes still ends after one. -/
theorem not_alwaysTransparent : ¬ AlwaysTransparent := by
  intro h
  have hread := h oneByte [.readAt (some [47]) 0 true 1 (some 0), farByte] _ (.cons rfl (.cons rfl (.nil _)))
    (some [47]) 0 true 2 (some 0)
  revert hread
  decide +kernel

end Monios.Analysis.FsCache
