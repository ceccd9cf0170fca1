import Monios.Analysis.CacheSlots
import Monios.Library.FileBytes
import Monios.Library.Run

/-!
# Durability of the file cache

A full block that a write call has reported as written is in a dirty slot until its flusher has
taken all of it, whatever the flushers and loaders do, and the slots stay consistent over every run.
`owed` is what a run owes to its callers: it is not part of the cache, but is computed along the run
from the arguments and results of the write calls and from the answers of the flushers.
-/

set_option autoImplicit false

namespace Monios.Analysis.FsCache

open Monios.Library Monios.Library.Bitmap Monios.Model.FsCache

variable {σ α : Type} {fl : Flushers σ} {s : Cache σ} {path : Path} {start : Nat} {i : Fin defaultSlots}

structure Ready (path : Path) (start : Nat) (i : Fin defaultSlots) (s : Cache σ) : Prop where
  ok : SlotsOk s
  enabled : s.enabled = true
  clean : (s.slots i).dirty = false
  active : i.val < activeSlots s
  absent : Absent s path start

theorem Ready.machine (h : Ready path start i s) (m : σ) :
    Ready path start i { s with machine := m } :=
  ⟨h.ok.machine m, h.enabled, h.clean, h.active, h.absent⟩

/-- A slot that is given up is ready for a block. -/
theorem Ready.setEmpty (h : Ready path start i s) : Ready path start i (s.setSlot i {}) := by
  refine ⟨h.ok.setInvalid h.clean rfl rfl, h.enabled, ?_, h.active, fun j hvalid hpath => ?_⟩
  · rw [setSlot_self]
  · by_cases hji : j = i
    · rw [hji, setSlot_self] at hvalid
      cases hvalid
    · rw [setSlot_ne s _ hji] at hvalid hpath ⊢
      exact h.absent j hvalid hpath

/-- A slot that is filled with a block of the path keeps the slots in order. -/
theorem Ready.occupy (h : Ready path start i s) {slot : Slot} (hclean : slot.dirty = false)
    (hpath : slot.path = path) (hstart : slot.blockStart = start)
    (hsize : slot.dataSize ≤ blockSize) : SlotsOk (s.setSlot i slot) := by
  refine h.ok.setClean h.clean hclean (fun _ => hsize) (fun _ => h.active)
    (fun _ j _ hvalid hkey => ?_) fun hen => ?_
  · rw [hstart]
    rw [hpath] at hkey
    exact h.absent j hvalid hkey
  · rw [h.enabled] at hen
    cases hen

theorem copyPath_of_cacheable (h : pathIsCacheable path = true) : copyPath path = (path, true) := by
  unfold pathIsCacheable at h
  rw [decide_eq_true_eq] at h
  unfold copyPath
  rw [List.take_of_length_le (Nat.le_sub_one_of_lt h), decide_eq_true (Nat.le_sub_one_of_lt h)]

/-- A slot that is chosen is free for the block, its old contents handed to a flusher or clean. -/
theorem chooseSlot_ready (fl : Flushers σ) (hok : SlotsOk s) (hen : s.enabled = true)
    (hfind : find path start s = none) :
    Traced.Ends Keeps (fun chosen t => SlotsOk t ∧ t.enabled = true ∧ ∀ i, chosen = some i → Ready path start i t)
      (chooseSlot fl) s := by
  apply (chooseSlot_ends fl hok).mono
  rintro chosen t ⟨hok', hkeys, hchosen⟩
  have hen' : t.enabled = true := hkeys.enabled.trans hen
  refine ⟨hok', hen', fun i hi => ⟨hok', hen', (hchosen i hi).1, (hchosen i hi).2, fun j hvalid hpath => ?_⟩⟩
  rw [hkeys.valid] at hvalid
  rw [hkeys.path] at hpath
  rw [hkeys.blockStart]
  exact find_none hok hfind j hvalid hpath

/-- A loader leaves the cache as it is. -/
theorem callLoader_ready (loader : Loader σ) (offset size : Nat) (h : Ready path start i s) :
    Traced.Ends Keeps (fun _ t => Ready path start i t) (callLoader loader path offset size) s := by
  refine ⟨fun _ _ _ hheld => Or.inl hheld, ?_⟩
  exact h.machine _

theorem callLoader_ends (loader : Loader σ) (offset size : Nat) (hok : SlotsOk s)
    (hen : s.enabled = true) :
    Traced.Ends Keeps (fun _ t => SlotsOk t ∧ t.enabled = true)
      (callLoader loader path offset size) s := by
  refine ⟨fun _ _ _ hheld => Or.inl hheld, ?_, hen⟩
  exact hok.machine _

/-- Filling a slot keeps the slots in order. -/
theorem fillSlot_ends (loader : Loader σ) (hpath : pathIsCacheable path = true)
    (current want : Nat) (bytes : List UInt8) (hok : SlotsOk s) (hen : s.enabled = true) :
    Traced.Ends Keeps (fun _ t => SlotsOk t ∧ t.enabled = true)
      (fillSlot fl loader path start current want bytes) s := by
  unfold fillSlot
  apply Traced.Ends.reads_bind
  cases hfind : find path start s with
  | some i => exact Traced.Ends.pure (Keeps.refl s []) ⟨hok, hen⟩
  | none =>
    apply Traced.Ends.bind Keeps.trans (chooseSlot_ready fl hok hen hfind)
    rintro chosen t ⟨hok, hen, hready⟩
    cases chosen with
    | none => exact Traced.Ends.pure (Keeps.refl t []) ⟨hok, hen⟩
    | some i =>
      have hready := hready i rfl
      have hload : (if start > 0xFFFFFFFF - (blockSize - 1) then 0xFFFFFFFF - start + 1 else blockSize) ≤ blockSize := by
        unfold blockSize
        split
        · omega
        · omega
      dsimp only
      generalize (if start > 0xFFFFFFFF - (blockSize - 1) then 0xFFFFFFFF - start + 1 else blockSize) = loadSize at hload ⊢
      apply Traced.Ends.modifies_bind Keeps.trans (Keeps.setClean _ hready.clean [])
      apply Traced.Ends.bind Keeps.trans (callLoader_ready loader _ _ hready.setEmpty)
      rintro ⟨loaded, data⟩ u hready
      dsimp only
      split
      · exact Traced.Ends.pure (Keeps.refl u []) ⟨hready.ok, hready.enabled⟩
      · next hbound =>
        split
        · exact Traced.Ends.pure (Keeps.refl u []) ⟨hready.ok, hready.enabled⟩
        · next hpos =>
          rw [copyPath_of_cacheable hpath]
          apply Traced.Ends.modifies_bind Keeps.trans
          · exact Keeps.setClean _ hready.clean []
          · rw [if_neg (by simp)]
            refine Traced.Ends.pure (Keeps.refl _ []) ⟨?_, hready.enabled⟩
            have hloaded : loaded.toNat ≤ blockSize := by omega
            have hkey : (loadedSlot path start loaded.toNat (data.take loadSize) (nextAge u)).path = path :=
              congrArg Prod.fst (copyPath_of_cacheable hpath)
            exact (hready.occupy rfl hkey rfl hloaded).clock (nextAge u)

/-- Copying from a slot changes no slot. -/
theorem copyFromSlot_ends (i : Fin defaultSlots) (offset size : Nat) (hok : SlotsOk s)
    (hen : s.enabled = true) :
    Traced.Ends Keeps (fun _ t => SlotsOk t ∧ t.enabled = true) (copyFromSlot i offset size) s := by
  unfold copyFromSlot
  apply Traced.Ends.reads_bind
  split
  · exact Traced.Ends.pure (Keeps.refl s []) ⟨hok, hen⟩
  · dsimp only
    split
    · exact Traced.Ends.pure (Keeps.refl s []) ⟨hok, hen⟩
    · have hsame := sameSlots_setAge s i (nextAge s) (nextAge s)
      apply Traced.Ends.modifies_bind Keeps.trans fun _ _ _ hheld => Or.inl (hheld.congr hsame)
      exact Traced.Ends.pure (Keeps.refl _ []) ⟨hok.congr hsame, hen⟩

/-- A read keeps every block that is owed. -/
theorem readFrom_ends (loader : Loader σ) (hpath : pathIsCacheable path = true)
    (offset size rounds : Nat) (bytes : List UInt8) (hok : SlotsOk s) (hen : s.enabled = true) :
    Traced.Ends Keeps (fun _ t => SlotsOk t ∧ t.enabled = true)
      (readFrom fl loader path offset size rounds bytes) s := by
  induction rounds generalizing s bytes with
  | zero =>
    unfold readFrom
    exact Traced.Ends.pure (Keeps.refl s []) ⟨hok, hen⟩
  | succ rounds ih =>
    unfold readFrom
    split
    · exact Traced.Ends.pure (Keeps.refl s []) ⟨hok, hen⟩
    · unfold readRound
      apply Traced.Ends.bind Keeps.trans (fillSlot_ends loader hpath _ _ bytes hok hen)
      rintro fill t ⟨hok, hen⟩
      cases fill with
      | stop result bytes => exact Traced.Ends.pure (Keeps.refl t []) ⟨hok, hen⟩
      | slot i =>
        dsimp only
        apply Traced.Ends.reads_bind
        split
        · exact Traced.Ends.pure (Keeps.refl t []) ⟨hok, hen⟩
        · apply Traced.Ends.bind Keeps.trans (copyFromSlot_ends i _ _ hok hen)
          rintro part u ⟨hok, hen⟩
          cases part with
          | some part => exact ih _ hok hen
          | none =>
            apply Traced.Ends.bind Keeps.trans (callLoader_ends loader _ _ hok hen)
            rintro ⟨direct, data⟩ v ⟨hok, hen⟩
            apply Traced.Ends.ite
            · exact fun _ => Traced.Ends.pure (Keeps.refl v []) ⟨hok, hen⟩
            · intro _
              apply Traced.Ends.ite
              · exact fun _ => Traced.Ends.pure (Keeps.refl v []) ⟨hok, hen⟩
              · exact fun _ => ih _ hok hen

/-- A flusher leaves the cache as it is. -/
theorem callFlusher_ends (offset : Nat) (data : List UInt8) (flusher : Nat) (hok : SlotsOk s)
    (hen : s.enabled = true) :
    Traced.Ends Keeps (fun _ t => SlotsOk t ∧ t.enabled = true)
      (some <$> callFlusher fl flusher path offset data) s := by
  refine ⟨fun _ _ _ hheld => Or.inl hheld, ?_, hen⟩
  exact hok.machine _

/-- A write of a part of a block goes to the flusher at once. -/
theorem writePart_ends (current : Nat) (data : List UInt8) (flusher : Nat) (hok : SlotsOk s)
    (hen : s.enabled = true) :
    Traced.Ends Keeps (fun _ t => SlotsOk t ∧ t.enabled = true)
      (writePart fl path start current data flusher) s := by
  unfold writePart
  apply Traced.Ends.reads_bind
  rw [id]
  cases hfind : find path start s with
  | none => exact callFlusher_ends current data flusher hok hen
  | some i =>
    dsimp only
    apply Traced.Ends.ite
    · intro hdirty
      apply Traced.Ends.bind Keeps.trans (flushSlot_ends fl hok hdirty)
      rintro ok t ⟨hok, hkeys, hclean⟩
      have hen : t.enabled = true := hkeys.enabled.trans hen
      cases ok with
      | false => exact Traced.Ends.pure (Keeps.refl t []) ⟨hok, hen⟩
      | true =>
        apply Traced.Ends.modifies_bind Keeps.trans
        · exact Keeps.setClean _ (hclean rfl) []
        · exact callFlusher_ends current data flusher (hok.setInvalid (hclean rfl) (hclean rfl) rfl) hen
    · intro hdirty
      rw [Bool.not_eq_true] at hdirty
      apply Traced.Ends.modifies_bind Keeps.trans
      · exact Keeps.setClean _ hdirty []
      · exact callFlusher_ends current data flusher (hok.setInvalid hdirty hdirty rfl) hen

def Keyed (path : Path) (start : Nat) (i : Fin defaultSlots) (s : Cache σ) : Prop :=
  (s.slots i).valid = true ∧ (s.slots i).path = path ∧ (s.slots i).blockStart = start

/-- A write of a whole block gets a slot of this block, or none. -/
theorem slotForWrite_ends (flusher : Nat) (hpath : pathIsCacheable path = true) (hok : SlotsOk s)
    (hen : s.enabled = true) :
    Traced.Ends Keeps (fun r t => SlotsOk t ∧ t.enabled = true ∧ (r.1 = none → r.2 = true) ∧
      ∀ i, r.1 = some i → Keyed path start i t) (slotForWrite fl path start flusher) s := by
  unfold slotForWrite
  apply Traced.Ends.reads_bind
  rw [id]
  cases hfind : find path start s with
  | some i =>
    obtain ⟨hvalid, hkey, hstart, -⟩ := find_some hfind
    dsimp only
    apply Traced.Ends.ite
    · rintro ⟨hdirty, -⟩
      apply Traced.Ends.bind Keeps.trans (flushSlot_ends fl hok hdirty)
      rintro ok t ⟨hok, hkeys, -⟩
      refine Traced.Ends.pure (Keeps.refl t []) ⟨hok, hkeys.enabled.trans hen, fun _ => rfl,
        fun j hj => ?_⟩
      cases ok with
      | false => cases hj
      | true =>
        obtain rfl : i = j := Option.some.inj hj
        exact ⟨(hkeys.valid i).trans hvalid, (hkeys.path i).trans hkey,
          (hkeys.blockStart i).trans hstart⟩
    · intro _
      refine Traced.Ends.pure (Keeps.refl s []) ⟨hok, hen, fun _ => rfl, fun j hj => ?_⟩
      obtain rfl : i = j := Option.some.inj hj
      exact ⟨hvalid, hkey, hstart⟩
  | none =>
    apply Traced.Ends.bind Keeps.trans (chooseSlot_ready fl hok hen hfind)
    rintro chosen t ⟨hok, hen, hready⟩
    cases chosen with
    | none => exact Traced.Ends.pure (Keeps.refl t []) ⟨hok, hen, fun _ => rfl, fun j hj => by cases hj⟩
    | some i =>
      have hready := hready i rfl
      have hkey : (freshSlot path start (nextAge t)).path = path :=
        congrArg Prod.fst (copyPath_of_cacheable hpath)
      dsimp only
      apply Traced.Ends.modifies_bind Keeps.trans
      · exact Keeps.setClean _ hready.clean []
      · rw [copyPath_of_cacheable hpath]
        refine Traced.Ends.pure (Keeps.refl _ []) ⟨?_, hen, fun _ => rfl, fun j hj => ?_⟩
        · exact (hready.occupy rfl hkey rfl (Nat.le_refl _)).clock (nextAge t)
        · obtain rfl : i = j := Option.some.inj hj
          change ((t.setSlot i (freshSlot path start (nextAge t))).slots i).valid = true ∧
            ((t.setSlot i (freshSlot path start (nextAge t))).slots i).path = path ∧
            ((t.setSlot i (freshSlot path start (nextAge t))).slots i).blockStart = start
          rw [setSlot_self]
          exact ⟨rfl, hkey, rfl⟩

def fullSlot (flusher : Nat) (data : List UInt8) (i : Fin defaultSlots) (s : Cache σ) : Slot :=
  { s.slots i with
    data := data
    flusher := some flusher
    dataSize := if blockSize > (s.slots i).dataSize then blockSize else (s.slots i).dataSize
    dirty := true
    age := nextAge s }

/-- A block is put into its own slot only. -/
theorem putBlock_slots (flusher : Nat) (data : List UInt8) (i j : Fin defaultSlots) (s : Cache σ) :
    (putBlock flusher data i s).slots j = if j = i then fullSlot flusher data i s else s.slots j :=
  Function.update_apply _ _ _ _

theorem dataSize_fullSlot {flusher : Nat} {data : List UInt8} (hok : SlotsOk s)
    (hvalid : (s.slots i).valid = true) :
    (fullSlot flusher data i s).dataSize = blockSize := by
  have hbounded := hok.bounded i hvalid
  unfold fullSlot
  dsimp only
  split
  · rfl
  · omega

/-- Putting a block into its slot keeps the slots in order. -/
theorem SlotsOk.putBlock {flusher : Nat} {data : List UInt8} (hok : SlotsOk s)
    (hvalid : (s.slots i).valid = true) (hdata : data.length = blockSize) :
    SlotsOk (putBlock flusher data i s) := by
  have hkey (j : Fin defaultSlots) :
      ((Monios.Model.FsCache.putBlock flusher data i s).slots j).valid = (s.slots j).valid ∧
      ((Monios.Model.FsCache.putBlock flusher data i s).slots j).path = (s.slots j).path ∧
      ((Monios.Model.FsCache.putBlock flusher data i s).slots j).blockStart = (s.slots j).blockStart := by
    rw [putBlock_slots]
    split
    · next hji =>
      rw [hji]
      exact ⟨rfl, rfl, rfl⟩
    · exact ⟨rfl, rfl, rfl⟩
  refine ⟨?_, fun j hj => ?_, fun j hj => ?_, fun j hj => ?_, fun j hj => ?_,
    fun j k hj hk hpath hblock => ?_,
    fun hen j => ?_⟩
  · have hupdate : (fun j => ((Monios.Model.FsCache.putBlock flusher data i s).slots j).dirty) =
        Function.update (fun j => (s.slots j).dirty) i true := by
      funext j
      rw [putBlock_slots, Function.update_apply]
      split
      · rfl
      · rfl
    rw [hupdate]
    change (if (s.slots i).dirty = true then s.dirtyCount else (s.dirtyCount + 1) % 2 ^ 32) = _
    split
    · next hdirty => rw [hok.count, ← hdirty, Function.update_eq_self]
    · next hdirty =>
      rw [Bool.not_eq_true] at hdirty
      have hset := popcount_set (f := fun j => (s.slots j).dirty) hdirty
      have hcard : popcount (fun j => (s.slots j).dirty) ≤ 512 :=
        Nat.le_trans (popcount_le_card _) (Nat.le_of_eq (Fintype.card_fin 512))
      rw [hset, ← hok.count]
      rw [← hok.count] at hcard
      omega
  · rw [(hkey j).1]
    rw [putBlock_slots] at hj
    split at hj
    · next hji =>
      rw [hji]
      exact hvalid
    · exact hok.valid j hj
  · rw [putBlock_slots] at hj ⊢
    split at hj
    · next hji =>
      rw [if_pos hji]
      exact ⟨dataSize_fullSlot hok hvalid, hdata⟩
    · next hji =>
      rw [if_neg hji]
      exact hok.full j hj
  · rw [(hkey j).1] at hj
    rw [putBlock_slots]
    split
    · exact Nat.le_of_eq (dataSize_fullSlot hok hvalid)
    · exact hok.bounded j hj
  · rw [(hkey j).1] at hj
    exact hok.active j hj
  · rw [(hkey j).1] at hj
    rw [(hkey k).1] at hk
    rw [(hkey j).2.1, (hkey k).2.1] at hpath
    rw [(hkey j).2.2, (hkey k).2.2] at hblock
    exact hok.unique j k hj hk hpath hblock
  · rw [(hkey j).1]
    exact hok.enabled hen j

/-- A block that is put is held. -/
theorem held_putBlock {flusher : Nat} {data : List UInt8} (hok : SlotsOk s)
    (hkeyed : Keyed path start i s) :
    Held (putBlock flusher data i s) path start ⟨flusher, data⟩ := by
  refine ⟨i, ?_⟩
  rw [putBlock_slots, if_pos rfl]
  exact ⟨hkeyed.1, rfl, hkeyed.2.1, hkeyed.2.2, dataSize_fullSlot hok hkeyed.1, rfl, rfl⟩

/-- Putting a block lets go of no other one. -/
theorem Held.putBlock {flusher : Nat} {data : List UInt8} (hkeyed : Keyed path start i s)
    {path' : Path} {start' : Nat} {b : Block} (hne : ¬ (path' = path ∧ start' = start))
    (h : Held s path' start' b) :
    Held (putBlock flusher data i s) path' start' b := by
  obtain ⟨j, hj⟩ := h
  refine ⟨j, ?_⟩
  rw [putBlock_slots, if_neg]
  · exact hj
  · rintro rfl
    exact hne ⟨hj.2.2.1.symm.trans hkeyed.2.1, hj.2.2.2.1.symm.trans hkeyed.2.2⟩

abbrev Owed := Path → Nat → Option Block

def accepted (path : Path) (offset : Nat) (data : List UInt8) (flusher copied n : Nat) : Owed :=
  fun path' start =>
  if path' = path ∧ start % blockSize = 0 ∧ offset + copied ≤ start ∧
    start + blockSize ≤ offset + n then
    some ⟨flusher, (data.drop (start - offset)).take blockSize⟩
  else none

def Wrote (new : Owed) (s : Cache σ) (log : List FlusherCall) (s' : Cache σ) : Prop :=
  ∀ path start b, (new path start = some b ∨ new path start = none ∧ Held s path start b) →
    Held s' path start b ∨ log.any (confirms path start b) = true

/-- A step that keeps what is owed, before one that adds to it. -/
theorem Keeps.wrote {s t u : Cache σ} {log log' : List FlusherCall} {new : Owed} (h : Keeps s log t)
    (h' : Wrote new t log' u) : Wrote new s (log ++ log') u := by
  intro path start b hb
  rw [List.any_append, Bool.or_eq_true]
  rcases hb with hnew | ⟨hnew, hheld⟩
  · rcases h' path start b (Or.inl hnew) with hheld | hlog
    · exact Or.inl hheld
    · exact Or.inr (Or.inr hlog)
  · rcases h path start b hheld with hheld | hlog
    · rcases h' path start b (Or.inr ⟨hnew, hheld⟩) with hheld | hlog
      · exact Or.inl hheld
      · exact Or.inr (Or.inr hlog)
    · exact Or.inr (Or.inl hlog)

/-- The computation continues a write of which `copied` bytes have been written, and ends when `n`
bytes have. -/
def Writes (path : Path) (offset : Nat) (data : List UInt8) (flusher copied : Nat)
    (m : Cached σ Int) (s : Cache σ) : Prop :=
  SlotsOk (m.state s) ∧ ∃ n, copied ≤ n ∧ n ≤ data.length ∧ (m.result s = int32 n ∨ m.result s = -1 ∧ n = 0) ∧
    Wrote (accepted path offset data flusher copied n) s (m.log s) (m.state s)

section

variable {offset : Nat} {data : List UInt8} {flusher copied : Nat}

/-- Blocks behind the part that was copied are not accepted. -/
theorem accepted_none {n : Nat} {path' : Path} {start' : Nat} (h : n < copied + blockSize) :
    accepted path offset data flusher copied n path' start' = none := by
  unfold accepted
  rw [if_neg]
  rintro ⟨-, -, hfrom, hto⟩
  omega

/-- A write may stop: what it reports is what it has copied. -/
theorem Writes.stop {r : Int} (hok : SlotsOk s) (hle : copied ≤ data.length)
    (hr : r = int32 copied ∨ r = -1 ∧ copied = 0) :
    Writes path offset data flusher copied (pure r) s := by
  refine ⟨hok, copied, Nat.le_refl _, hle, hr, fun path' start' b hb => ?_⟩
  have hnone : accepted path offset data flusher copied copied path' start' = none := by
    apply accepted_none
    unfold blockSize
    omega
  rw [hnone] at hb
  rcases hb with hb | ⟨-, hheld⟩
  · cases hb
  · exact Or.inl hheld

/-- A step that keeps what is owed may come before the rest of a write. -/
theorem Writes.after {m : Cached σ α} {f : α → Cached σ Int} {Q : α → Cache σ → Prop}
    (hm : Traced.Ends Keeps Q m s)
    (hf : ∀ a t, Q a t → Writes path offset data flusher copied (f a) t) :
    Writes path offset data flusher copied (m >>= f) s := by
  obtain ⟨hkeeps, hq⟩ := hm
  obtain ⟨hok, n, hfrom, hto, hr, hwrote⟩ := hf _ _ hq
  exact ⟨hok, n, hfrom, hto, hr, hkeeps.wrote hwrote⟩

/-- A whole block that is put into its slot is accepted. -/
theorem Writes.put {m : Cached σ Int} (hok : SlotsOk s) (hkeyed : Keyed path (offset + copied) i s)
    (hstart : (offset + copied) % blockSize = 0)
    (h : Writes path offset data flusher (copied + blockSize) m
      (putBlock flusher ((data.drop copied).take blockSize) i s)) : Writes path offset data flusher copied
      (Traced.modifies (putBlock flusher ((data.drop copied).take blockSize) i) >>= fun _ => m) s := by
  obtain ⟨hok', n, hfrom, hto, hr, hwrote⟩ := h
  refine ⟨hok', n, by omega, hto, hr, fun path' start' b hb => ?_⟩
  apply hwrote path' start' b
  by_cases hblock : path' = path ∧ start' = offset + copied
  · right
    obtain ⟨rfl, rfl⟩ := hblock
    have hnew : accepted path' offset data flusher copied n path' (offset + copied) =
        some ⟨flusher, (data.drop copied).take blockSize⟩ := by
      unfold accepted
      rw [if_pos ⟨rfl, hstart, Nat.le_refl _, by omega⟩, Nat.add_sub_cancel_left]
    have hnone : accepted path' offset data flusher (copied + blockSize) n path' (offset + copied) = none := by
      unfold accepted
      rw [if_neg]
      rintro ⟨-, -, hge, -⟩
      unfold blockSize at hge
      omega
    rw [hnew] at hb
    rcases hb with hb | ⟨hb, -⟩
    · obtain rfl := Option.some.inj hb
      exact ⟨hnone, held_putBlock hok hkeyed⟩
    · cases hb
  · have hsame : accepted path offset data flusher copied n path' start' =
        accepted path offset data flusher (copied + blockSize) n path' start' := by
      unfold accepted
      congr 1
      apply propext
      constructor
      · rintro ⟨hpath, hmod, hge, hend⟩
        refine ⟨hpath, hmod, ?_, hend⟩
        have hne : start' ≠ offset + copied := fun heq => hblock ⟨hpath, heq⟩
        unfold blockSize at hmod hstart ⊢
        omega
      · rintro ⟨hpath, hmod, hge, hend⟩
        exact ⟨hpath, hmod, by omega, hend⟩
    rw [hsame] at hb
    rcases hb with hnew | ⟨hnone, hheld⟩
    · exact Or.inl hnew
    · exact Or.inr ⟨hnone, hheld.putBlock hkeyed hblock⟩

/-- A part of a block that went to the flusher is none of the accepted blocks. -/
theorem Writes.skip {copied' : Nat} {m : Cached σ Int} (hle : copied ≤ copied')
    (hno : ∀ start, start % blockSize = 0 → offset + copied ≤ start → start < offset + copied' →
      offset + data.length < start + blockSize) (h : Writes path offset data flusher copied' m s) :
    Writes path offset data flusher copied m s := by
  obtain ⟨hok, n, hfrom, hto, hr, hwrote⟩ := h
  refine ⟨hok, n, Nat.le_trans hle hfrom, hto, hr, fun path' start' b hb => hwrote path' start' b ?_⟩
  have hsame : accepted path offset data flusher copied n path' start' =
      accepted path offset data flusher copied' n path' start' := by
    unfold accepted
    congr 1
    apply propext
    constructor
    · rintro ⟨hpath, hstart, hge, hend⟩
      refine ⟨hpath, hstart, ?_, hend⟩
      by_contra hlt
      have := hno start' hstart hge (by omega)
      omega
    · rintro ⟨hpath, hstart, hge, hend⟩
      exact ⟨hpath, hstart, by omega, hend⟩
  rw [hsame] at hb
  exact hb

/-- A write reports the bytes copied, or -1 if there were none. -/
theorem copiedOrFail_cases (copied : Nat) :
    copiedOrFail copied = int32 copied ∨ copiedOrFail copied = -1 ∧ copied = 0 := by
  unfold copiedOrFail
  split
  · exact Or.inl rfl
  · next h => exact Or.inr ⟨rfl, not_not.mp h⟩

/-- A round of the loop of `fs_cache_write_at`. -/
theorem writeRound_writes (hpath : pathIsCacheable path = true) (hok : SlotsOk s)
    (hen : s.enabled = true) (hlt : copied < data.length) {next : Nat → Cached σ Int}
    (hnext : ∀ copied' t, copied' ≤ data.length → SlotsOk t → t.enabled = true →
      Writes path offset data flusher copied' (next copied') t) :
    Writes path offset data flusher copied
    (writeRound fl path offset data flusher copied next) s := by
  have hstart : (offset + copied) / blockSize * blockSize + (offset + copied) % blockSize =
      offset + copied :=
    Nat.div_add_mod' _ _
  have hmod : (offset + copied) % blockSize < blockSize := Nat.mod_lt _ (by decide)
  have hoffset : offset + copied - (offset + copied) / blockSize * blockSize = (offset + copied) % blockSize := by omega
  unfold writeRound
  dsimp only
  rw [hoffset]
  generalize hwant : min (blockSize - (offset + copied) % blockSize) (data.length - copied) = want
  split
  · next hpart =>
    -- No full block begins in a part of a block.
    have hno (copied' : Nat) (hle : copied' ≤ copied + want) (start : Nat) (hs : start % blockSize = 0)
        (hge : offset + copied ≤ start) (hlt' : start < offset + copied') : offset + data.length < start + blockSize := by
      unfold blockSize at *
      omega
    apply Writes.after (writePart_ends _ _ flusher hok hen)
    rintro done t ⟨hok, hen⟩
    cases done with
    | none => exact Writes.stop hok (Nat.le_of_lt hlt) (copiedOrFail_cases copied)
    | some done =>
      dsimp only
      split
      · exact Writes.stop hok (Nat.le_of_lt hlt) (copiedOrFail_cases copied)
      · next hdone =>
        split
        · refine Writes.skip (Nat.le_add_right _ _) (hno (copied + done.toNat) (by omega)) ?_
          exact Writes.stop hok (by omega) (Or.inl rfl)
        · refine Writes.skip (Nat.le_add_right _ _) (hno (copied + want) (Nat.le_refl _)) ?_
          exact hnext _ t (by omega) hok hen
  · next hfull =>
    rw [not_or, not_not, not_not] at hfull
    obtain ⟨hzero, rfl⟩ := hfull
    apply Writes.after (slotForWrite_ends flusher hpath hok hen)
    rintro ⟨chosen, failed⟩ t ⟨hok, hen, hfailed, hkeyed⟩
    cases chosen with
    | none =>
      dsimp only at hfailed ⊢
      rw [hfailed rfl, if_pos rfl]
      exact Writes.stop hok (Nat.le_of_lt hlt) (copiedOrFail_cases copied)
    | some i =>
      have hkeyed := hkeyed i rfl
      rw [hzero, Nat.add_zero] at hstart
      rw [hstart] at hkeyed
      have hlen : ((data.drop copied).take blockSize).length = blockSize := by
        rw [List.length_take, List.length_drop]
        omega
      apply Writes.put hok hkeyed hzero
      exact hnext _ _ (by omega) (hok.putBlock hkeyed.1 hlen) hen

/-- The loop of `fs_cache_write_at`. -/
theorem writeFrom_writes (hpath : pathIsCacheable path = true) (rounds : Nat) (hok : SlotsOk s)
    (hen : s.enabled = true) (hle : copied ≤ data.length) :
    Writes path offset data flusher copied
      (writeFrom fl path offset data flusher rounds copied) s := by
  induction rounds generalizing s copied with
  | zero =>
    unfold writeFrom
    exact Writes.stop hok hle (Or.inl rfl)
  | succ rounds ih =>
    unfold writeFrom
    split
    · exact Writes.stop hok hle (Or.inl rfl)
    · next hlt => exact writeRound_writes hpath hok hen (Nat.lt_of_not_le hlt) fun copied' t hle hok hen => ih hok hen hle

end

theorem SameKeys.trans {s t u : Cache σ} (h : SameKeys s t) (h' : SameKeys t u) : SameKeys s u :=
  ⟨h'.enabled.trans h.enabled, h'.configured.trans h.configured, fun i => (h'.valid i).trans (h.valid i),
    fun i => (h'.path i).trans (h.path i), fun i => (h'.blockStart i).trans (h.blockStart i),
    fun i => (h'.dataSize i).trans (h.dataSize i), fun i => (h'.data i).trans (h.data i)⟩

/-- Flushing keeps the blocks that a flusher does not take. -/
theorem flushAll_ends (fl : Flushers σ) (is : List (Fin defaultSlots)) (flushed : Nat)
    (hok : SlotsOk s) :
    Traced.Ends Keeps (fun _ t => SlotsOk t ∧ SameKeys s t) (flushAll fl is flushed) s := by
  induction is generalizing s flushed with
  | nil => exact Traced.Ends.pure (Keeps.refl s []) ⟨hok, SameKeys.refl s⟩
  | cons i is ih =>
    unfold flushAll
    apply Traced.Ends.reads_bind
    apply Traced.Ends.ite
    · rintro ⟨-, hdirty⟩
      apply Traced.Ends.bind Keeps.trans (flushSlot_ends fl hok hdirty)
      rintro ok t ⟨hok, hkeys, -⟩
      exact (ih _ hok).mono fun _ _ h => ⟨h.1, hkeys.trans h.2⟩
    · exact fun _ => ih flushed hok

/-- `fs_cache_flush` keeps the blocks that a flusher does not take. -/
theorem fsCacheFlush_ends (fl : Flushers σ) (hok : SlotsOk s) :
    Traced.Ends Keeps (fun _ t => SlotsOk t ∧ SameKeys s t) (fsCacheFlush fl) s := by
  unfold fsCacheFlush
  apply Traced.Ends.reads_bind
  exact flushAll_ends fl _ 0 hok

structure GivenUp (s t : Cache σ) : Prop where
  ok : SlotsOk t
  enabled : t.enabled = s.enabled
  configured : t.configuredSlots = s.configuredSlots
  valid : ∀ i, (t.slots i).valid = true → (s.slots i).valid = true

theorem GivenUp.refl (hok : SlotsOk s) : GivenUp s s := ⟨hok, rfl, rfl, fun _ h => h⟩

/-- Slots given up in two steps. -/
theorem GivenUp.trans {s t u : Cache σ} (h : GivenUp s t) (h' : GivenUp t u) : GivenUp s u :=
  ⟨h'.ok, h'.enabled.trans h.enabled, h'.configured.trans h.configured, fun i hi => h.valid i (h'.valid i hi)⟩

/-- A clean slot may be given up. -/
theorem givenUp_setSlot (hok : SlotsOk s) (hclean : (s.slots i).dirty = false) :
    GivenUp s (s.setSlot i { s.slots i with valid := false, dirty := false }) := by
  refine ⟨hok.setInvalid hclean rfl rfl, rfl, rfl, fun j hj => ?_⟩
  by_cases hji : j = i
  · rw [hji, setSlot_self] at hj
    cases hj
  · rw [setSlot_ne s _ hji] at hj
    exact hj

/-- Invalidating gives up a slot only when its block has been taken. -/
theorem invalidateAll_ends (fl : Flushers σ) (path : Option Path) (is : List (Fin defaultSlots))
    (hok : SlotsOk s) :
    Traced.Ends Keeps (fun _ t => GivenUp s t) (invalidateAll fl path is) s := by
  induction is generalizing s with
  | nil => exact Traced.Ends.pure (Keeps.refl s []) (GivenUp.refl hok)
  | cons i is ih =>
    unfold invalidateAll
    apply Traced.Ends.reads_bind
    apply Traced.Ends.ite
    · rintro ⟨-, -⟩
      have hflush : Traced.Ends Keeps (fun ok t => GivenUp s t ∧ (ok = true → (t.slots i).dirty = false))
          (if (s.slots i).dirty then flushSlot fl i else pure true) s := by
        apply Traced.Ends.ite
        · intro hdirty
          apply (flushSlot_ends fl hok hdirty).mono
          rintro ok t ⟨hok, hkeys, hclean⟩
          exact ⟨⟨hok, hkeys.enabled, hkeys.configured, fun j hj => (hkeys.valid j).symm.trans hj⟩,
            hclean⟩
        · exact fun hdirty =>
            Traced.Ends.pure (Keeps.refl s []) ⟨GivenUp.refl hok, fun _ => (Bool.not_eq_true _).mp hdirty⟩
      apply Traced.Ends.bind Keeps.trans hflush
      rintro ok t ⟨hgiven, hclean⟩
      cases ok with
      | false => exact (ih hgiven.ok).mono fun _ _ h => hgiven.trans h
      | true =>
        have hstep := givenUp_setSlot hgiven.ok (hclean rfl)
        apply Traced.Ends.modifies_bind Keeps.trans
        · exact Keeps.setClean _ (hclean rfl) []
        · exact (ih hstep.ok).mono fun _ _ h => hgiven.trans (hstep.trans h)
    · exact fun _ => ih hok

/-- Without dirty slots all are given up. -/
theorem invalidateAll_none (fl : Flushers σ) (is : List (Fin defaultSlots))
    (hclean : ∀ i, (s.slots i).dirty = false) :
    (∀ i, ((invalidateAll fl none is).state s |>.slots i).valid = true → (s.slots i).valid = true ∧
      i ∉ is) := by
  induction is generalizing s with
  | nil => exact fun i hi => ⟨hi, List.not_mem_nil⟩
  | cons j is ih =>
    intro i hi
    unfold invalidateAll at hi
    rw [Traced.state_bind, Traced.result_reads, Traced.state_reads, hclean j] at hi
    by_cases hvalid : (s.slots j).valid = true
    · rw [if_pos ⟨hvalid, Or.inl rfl⟩] at hi
      have hclean' (k : Fin defaultSlots) :
          ((s.setSlot j { s.slots j with valid := false, dirty := false }).slots k).dirty = false := by
        by_cases hkj : k = j
        · rw [hkj, setSlot_self]
        · rw [setSlot_ne s _ hkj]
          exact hclean k
      obtain ⟨hi, hmem⟩ := ih hclean' i hi
      by_cases hij : i = j
      · rw [hij, setSlot_self] at hi
        cases hi
      · rw [setSlot_ne s _ hij] at hi
        exact ⟨hi, fun h => (List.mem_cons.mp h).elim hij hmem⟩
    · rw [if_neg fun h => hvalid h.1] at hi
      obtain ⟨hi, hmem⟩ := ih hclean i hi
      refine ⟨hi, fun h => (List.mem_cons.mp h).elim (fun hij => hvalid ?_) hmem⟩
      rw [← hij]
      exact hi

/-- Draining leaves no valid slot if it succeeds. -/
theorem drain_ends (fl : Flushers σ) (hok : SlotsOk s) :
    Traced.Ends Keeps (fun ok t => SlotsOk t ∧ t.enabled = s.enabled ∧ t.configuredSlots = s.configuredSlots ∧
      (ok = true → ∀ i, (t.slots i).valid = false)) (drain fl) s := by
  unfold drain
  apply Traced.Ends.bind Keeps.trans (fsCacheFlush_ends fl hok)
  rintro - t ⟨hok, hkeys⟩
  apply Traced.Ends.reads_bind
  apply Traced.Ends.ite
  · exact fun _ =>
      Traced.Ends.pure (Keeps.refl t []) ⟨hok, hkeys.enabled, hkeys.configured, fun h => absurd h Bool.false_ne_true⟩
  · intro hcount
    have hclean (i : Fin defaultSlots) : (t.slots i).dirty = false := by
      by_contra hdirty
      rw [Bool.not_eq_false] at hdirty
      have hpos := popcount_pos (f := fun i => (t.slots i).dirty) hdirty
      rw [← hok.count] at hpos
      omega
    have hends : Traced.Ends Keeps (fun _ u => GivenUp t u ∧ ∀ i, (u.slots i).valid = false)
        (fsCacheInvalidatePath fl none) t := by
      unfold fsCacheInvalidatePath
      apply Traced.Ends.reads_bind
      obtain ⟨hkeeps, hgiven⟩ := invalidateAll_ends fl none (activeList t) hok
      refine ⟨hkeeps, hgiven, fun i => ?_⟩
      by_contra hvalid
      rw [Bool.not_eq_false] at hvalid
      obtain ⟨hvalid, hmem⟩ := invalidateAll_none fl (activeList t) hclean i hvalid
      exact hmem (mem_activeList.mpr (hok.active i hvalid))
    apply Traced.Ends.bind Keeps.trans hends
    rintro - u ⟨hgiven, hinvalid⟩
    exact Traced.Ends.pure (Keeps.refl u [])
      ⟨hgiven.ok, hgiven.enabled.trans hkeys.enabled, hgiven.configured.trans hkeys.configured, fun _ => hinvalid⟩

/-- The settings of the cache are no blocks. -/
theorem Keeps.settings (s : Cache σ) (enabled : Bool) (configured : Nat) :
    Keeps s [] { s with enabled := enabled, configuredSlots := configured } :=
  fun _ _ _ h => Or.inl h

/-- An empty cache may be set to any size. -/
theorem SlotsOk.settings (hok : SlotsOk s) (hinvalid : ∀ i, (s.slots i).valid = false)
    (enabled : Bool) (configured : Nat) :
    SlotsOk { s with enabled := enabled, configuredSlots := configured } := by
  refine ⟨hok.count, hok.valid, hok.full, hok.bounded, fun i hi => ?_, hok.unique,
    fun _ => hinvalid⟩
  rw [show (s.slots i).valid = false from hinvalid i] at hi
  cases hi

/-- A cache may be given more slots. -/
theorem SlotsOk.grow (hok : SlotsOk s) {configured : Nat} (hle : activeSlots s ≤ configured)
    (hmax : configured ≤ defaultSlots) : SlotsOk { s with configuredSlots := configured } := by
  have hpos := activeSlots_pos s
  have hactive : configured ≤ activeSlots { s with configuredSlots := configured } := by
    have hzero : configured ≠ 0 := by omega
    unfold activeSlots
    dsimp only
    rw [if_neg hzero, if_neg (Nat.not_lt_of_le hmax)]
    split
    · omega
    · exact Nat.le_refl _
  refine ⟨hok.count, hok.valid, hok.full, hok.bounded, fun i hi => ?_, hok.unique, hok.enabled⟩
  exact Nat.lt_of_lt_of_le (hok.active i hi) (Nat.le_trans hle hactive)

/-- Every operation of `fs_cache_ctl` keeps what is owed. -/
theorem fsCacheCtl_ends (fl : Flushers σ) (cmd arg1 : UInt64) (hok : SlotsOk s) :
    Traced.Ends Keeps (fun _ t => SlotsOk t) (fsCacheCtl fl cmd arg1) s := by
  unfold fsCacheCtl
  apply Traced.Ends.ite
  · exact fun _ => Traced.Ends.pure (Keeps.refl s []) hok
  intro _
  apply Traced.Ends.ite
  · intro _
    apply Traced.Ends.bind Keeps.trans (fsCacheFlush_ends fl hok)
    rintro flushed t ⟨hok, -⟩
    exact Traced.Ends.pure (Keeps.refl t []) hok
  intro _
  apply Traced.Ends.ite
  · intro _
    have hdrain : Traced.Ends Keeps (fun ok t => SlotsOk t ∧ (ok = true → arg1 = 0 → ∀ i, (t.slots i).valid = false))
        (if arg1 = 0 then drain fl else pure true) s := by
      apply Traced.Ends.ite
      · exact fun _ => (drain_ends fl hok).mono fun _ _ h => ⟨h.1, fun hr _ => h.2.2.2 hr⟩
      · exact fun h => Traced.Ends.pure (Keeps.refl s []) ⟨hok, fun _ h0 => absurd h0 h⟩
    apply Traced.Ends.bind Keeps.trans hdrain
    rintro ok t ⟨hok, hinvalid⟩
    cases ok with
    | false => exact Traced.Ends.pure (Keeps.refl t []) hok
    | true =>
      apply Traced.Ends.modifies_bind Keeps.trans (Keeps.settings t _ _)
      refine Traced.Ends.pure (Keeps.refl _ []) ?_
      refine ⟨hok.count, hok.valid, hok.full, hok.bounded, hok.active, hok.unique,
        fun hen => hinvalid rfl ?_⟩
      exact not_not.mp (of_decide_eq_false hen)
  intro _
  apply Traced.Ends.ite
  · intro _
    dsimp only
    apply Traced.Ends.reads_bind
    generalize hwant : (if arg1.toUInt32.toNat < 16 then 16 else arg1.toUInt32.toNat) = low
    have hmax : (if low > defaultSlots then defaultSlots else low) ≤ defaultSlots := by
      split
      · exact Nat.le_refl _
      · omega
    generalize (if low > defaultSlots then defaultSlots else low) = want at hmax ⊢
    have hdrain : Traced.Ends Keeps (fun ok t => SlotsOk t ∧
        (ok = true → (∀ i, (t.slots i).valid = false) ∨ activeSlots t ≤ want))
        (if want < activeSlots s then drain fl else pure true) s := by
      apply Traced.Ends.ite
      · exact fun _ => (drain_ends fl hok).mono fun _ _ h => ⟨h.1, fun hr => Or.inl (h.2.2.2 hr)⟩
      · exact fun h => Traced.Ends.pure (Keeps.refl s []) ⟨hok,
          fun _ => Or.inr (Nat.le_of_not_lt h)⟩
    apply Traced.Ends.bind Keeps.trans hdrain
    rintro ok t ⟨hok, hslots⟩
    cases ok with
    | false => exact Traced.Ends.pure (Keeps.refl t []) hok
    | true =>
      apply Traced.Ends.modifies_bind Keeps.trans (Keeps.settings t _ _)
      refine Traced.Ends.pure (Keeps.refl _ []) ?_
      rcases hslots rfl with hinvalid | hle
      · exact hok.settings hinvalid t.enabled want
      · exact hok.grow hle hmax
  intro _
  apply Traced.Ends.ite
  · intro _
    apply Traced.Ends.bind Keeps.trans (drain_ends fl hok)
    rintro ok t ⟨hok, -⟩
    exact Traced.Ends.pure (Keeps.refl t []) hok
  · exact fun _ => Traced.Ends.pure (Keeps.refl s []) hok

/-- `fs_cache_read_at` keeps what is owed. -/
theorem fsCacheReadAt_ends (fl : Flushers σ) (path : Option Path) (offset : UInt32) (buffer : Bool)
    (size : UInt32) (loader : Option (Loader σ)) (hok : SlotsOk s) :
    Traced.Ends Keeps (fun _ t => SlotsOk t)
      (fsCacheReadAt fl path offset buffer size loader) s := by
  have hpure (r : Int × List UInt8) : Traced.Ends Keeps (fun _ t => SlotsOk t) (pure r : Cached σ _) s :=
    Traced.Ends.pure (Keeps.refl s []) hok
  unfold fsCacheReadAt
  apply Traced.Ends.ite
  · exact fun _ => hpure _
  intro _
  split
  · next path loader =>
    apply Traced.Ends.ite
    · exact fun _ => hpure _
    intro _
    apply Traced.Ends.ite
    · exact fun _ => hpure _
    intro _
    apply Traced.Ends.reads_bind
    apply Traced.Ends.ite
    · intro _
      refine ⟨fun _ _ _ hheld => Or.inl hheld, ?_⟩
      exact hok.machine _
    · intro hdirect
      rw [Bool.or_eq_true, not_or, Bool.not_eq_true', Bool.not_eq_true', Bool.not_eq_false,
        Bool.not_eq_false] at hdirect
      exact (readFrom_ends loader hdirect.2 _ _ _ _ hok hdirect.1).mono fun _ _ h => h.1
  · exact hpure _

def reported (s : Cache σ) (r : Int) : Action → Owed
  | .writeAt (some path) offset (some data) flusher =>
    match flusher.or s.flusher with
    | some flusher => accepted path offset.toNat data.val flusher 0 (min r.toNat data.val.length)
    | none => fun _ _ => none
  | _ => fun _ _ => none

def unreported (r : Int) : Action → Path → Nat → Bool
  | .writeAt (some path) offset (some data) _ => fun path' start =>
    decide (r < 0 ∧ 2 ^ 31 ≤ data.val.length ∧ path' = path ∧ offset.toNat ≤ start ∧
      start + blockSize ≤ offset.toNat + data.val.length)
  | _ => fun _ _ => false

theorem copiedOr_zero (bytes : List UInt8) : copiedOr bytes 0 = int32 bytes.length := by
  unfold copiedOr
  split
  · rfl
  · next h =>
    have hzero : bytes.length = 0 := by omega
    rw [hzero]
    rfl

theorem int32_of_lt {n : Nat} (h : n < 2 ^ 31) : int32 n = n := by
  unfold int32
  rw [Int.bmod_def]
  have hmod : (n : Int) % ((2 ^ 32 : Nat) : Int) = n := by omega
  rw [hmod]
  split
  · rfl
  · omega

open Monios.Library.FileBytes in
/-- A relation that the steps of a read keep is kept by the read. -/
theorem readFrom_blocks {R : Cache σ → List FlusherCall → Cache σ → Prop} (hrefl : ∀ s, R s [] s)
    (htrans : ∀ {s l t l' u}, R s l t → R t l' u → R s (l ++ l') u) {loader : Loader σ}
    {I : Cache σ → Prop} {B : Nat → Fin defaultSlots → Cache σ → Prop} {file : List UInt8}
    {offset size : Nat} (hfit : offset + size ≤ 2 ^ 32)
    (hfill : ∀ start current want bytes s, start % blockSize = 0 → start < 2 ^ 32 → I s →
      Traced.Ends R (fun fill t => I t ∧ match fill with
        | .slot i => B start i t ∧ (t.slots i).dataSize = (readAt file start blockSize).length
        | .stop result bytes' => bytes' = bytes ∧ result = copiedOr bytes 0 ∧
        readAt file start blockSize = [])
        (fillSlot fl loader path start current want bytes) s)
    (hcopy : ∀ start i o n s, I s → B start i s → start ≤ o →
      o + n ≤ start + (readAt file start blockSize).length → 0 < n →
      Traced.Ends R (fun part t => I t ∧ part = some (readAt file o n)) (copyFromSlot i o n) s)
    (rounds n : Nat) (hn : n ≤ size) (hrounds : size - n ≤ rounds)
    (hbytes : n = (readAt file offset n).length) (h : I s) :
    Traced.Ends R (fun r t => I t ∧ r = (int32 (readAt file offset size).length, readAt file offset size))
      (readFrom fl loader path offset size rounds (readAt file offset n)) s := by
  induction rounds generalizing s n with
  | zero =>
    unfold readFrom
    refine Traced.Ends.pure (hrefl s) ⟨h, ?_⟩
    rw [readAt_of_end _ _ _ hn (Or.inl (by omega))]
  | succ rounds ih =>
    unfold readFrom
    rw [← hbytes]
    apply Traced.Ends.ite
    · intro hge
      refine Traced.Ends.pure (hrefl s) ⟨h, ?_⟩
      rw [readAt_of_end _ _ _ hn (Or.inl hge), ← hbytes]
    · intro hlt
      unfold readRound
      rw [← hbytes]
      dsimp only
      have hmod : (offset + n) / blockSize * blockSize + (offset + n) % blockSize = offset + n :=
        Nat.div_add_mod' _ _
      have hlt' : (offset + n) % blockSize < blockSize := Nat.mod_lt _ (by decide)
      have hstart : (offset + n) / blockSize * blockSize % blockSize = 0 := Nat.mul_mod_left _ _
      generalize (offset + n) / blockSize * blockSize = start at hmod hstart ⊢
      have hsmall : start < 2 ^ 32 := by omega
      apply Traced.Ends.bind htrans (hfill start _ _ _ s hstart hsmall h)
      rintro fill t ⟨h, hfound⟩
      have hlen := length_readAt file start blockSize
      cases fill with
      | stop result bytes =>
        obtain ⟨rfl, rfl, hnil⟩ := hfound
        refine Traced.Ends.pure (hrefl t) ⟨h, ?_⟩
        rw [hnil, List.length_nil] at hlen
        have hend : file.length ≤ offset + n := by
          unfold blockSize at hlen
          omega
        rw [readAt_of_end _ _ _ hn (Or.inr hend), copiedOr_zero]
      | slot i =>
        obtain ⟨hblock, hsize⟩ := hfound
        rw [← hsize] at hlen
        apply Traced.Ends.reads_bind
        apply Traced.Ends.ite
        · intro heof
          refine Traced.Ends.pure (hrefl t) ⟨h, ?_⟩
          have hend : file.length ≤ offset + n := by omega
          rw [readAt_of_end _ _ _ hn (Or.inr hend), ← hbytes]
        · intro hmore
          generalize hwant : (if offset + n - start + min (blockSize - (offset + n - start)) (size - n) >
            (t.slots i).dataSize then (t.slots i).dataSize - (offset + n - start)
            else min (blockSize - (offset + n - start)) (size - n)) = want
          have hwant' : 0 < want ∧ want ≤ size - n ∧ offset + n - start + want ≤
              (t.slots i).dataSize := by
            rw [← hwant]
            split
            · omega
            · omega
          obtain ⟨hpos, hle, hin⟩ := hwant'
          apply Traced.Ends.bind htrans (hcopy start i _ want t h hblock (by omega) (by rw [← hsize]; omega) hpos)
          rintro part u ⟨h, rfl⟩
          dsimp only
          rw [readAt_append]
          apply ih (n + want) (by omega) (by omega) _ h
          rw [length_readAt]
          omega

theorem int32_neg {n : Nat} (h : 2 ^ 31 ≤ n) (h' : n < 2 ^ 32) : int32 n < 0 := by
  unfold int32
  rw [Int.bmod_def]
  have hmod : (n : Int) % ((2 ^ 32 : Nat) : Int) = n := by omega
  rw [hmod]
  split
  · omega
  · omega

/-- After a call with the result `r`, the blocks it reports are held or have been taken, and so are
all others that were held, but those that may have been written without being reported. -/
def Honours (a : Action) (r : Int) (s : Cache σ) (log : List FlusherCall) (t : Cache σ) : Prop :=
  ∀ path start b, (reported s r a path start = some b ∨
      reported s r a path start = none ∧ unreported r a path start = false ∧ Held s path start b) →
    Held t path start b ∨ log.any (confirms path start b) = true

/-- A call that reports no write owes nothing new. -/
theorem Keeps.honours {a : Action} {r : Int} {t : Cache σ} {log : List FlusherCall}
    (h : Keeps s log t) (hnone : ∀ path start, reported s r a path start = none) :
    Honours a r s log t := by
  rintro path start b (hnew | ⟨-, -, hheld⟩)
  · rw [hnone] at hnew
    cases hnew
  · exact h path start b hheld

section

variable {offset : UInt32} {data : Buffer} {flusher : Option Nat}

/-- A write that reports no bytes has accepted none. -/
theorem reported_none {r : Int} (h : r ≤ 0) (path' : Path) (start' : Nat) :
    reported s r (.writeAt (some path) offset (some data) flusher) path' start' = none := by
  unfold reported
  dsimp only
  cases flusher.or s.flusher with
  | none => rfl
  | some f =>
    apply accepted_none
    unfold blockSize
    omega

/-- A write straight to a flusher owes nothing when the flusher takes it. -/
theorem honours_direct {f : Nat} (hf : flusher.or s.flusher = some f) (m : σ) (r : Int) :
    Honours (.writeAt (some path) offset (some data) flusher) r s [⟨f, path, offset.toNat, data.val, r⟩]
      { s with machine := m } := by
  rintro path' start' b (hnew | ⟨-, -, hheld⟩)
  · right
    unfold reported at hnew
    dsimp only at hnew
    rw [hf] at hnew
    dsimp only at hnew
    unfold accepted at hnew
    split at hnew
    · next hblock =>
      obtain ⟨hpath, -, hge, hend⟩ := hblock
      obtain rfl := Option.some.inj hnew
      rw [List.any_cons, List.any_nil, Bool.or_false]
      unfold confirms
      rw [decide_eq_true_eq]
      refine ⟨rfl, hpath.symm, ?_, ?_, rfl⟩
      · dsimp only
        omega
      · unfold blockSize at hend ⊢
        dsimp only
        omega
    · cases hnew
  · exact Or.inl hheld

/-- A write over blocks owes the whole blocks it has copied. -/
theorem honours_writes {f : Nat} (hf : flusher.or s.flusher = some f) {m : Cached σ Int}
    (h : Writes path offset.toNat data.val f 0 m s) :
    Honours (.writeAt (some path) offset (some data) flusher) (m.result s) s (m.log s)
      (m.state s) := by
  obtain ⟨-, n, -, hle, hr, hwrote⟩ := h
  have hlen := data.property
  rintro path' start' b hb
  by_cases hsmall : n < 2 ^ 31
  · -- The result is the number of bytes.
    have hr : m.result s = n ∨ m.result s = -1 ∧ n = 0 := by
      rcases hr with hr | hr
      · rw [hr, int32_of_lt hsmall]
        exact Or.inl rfl
      · exact Or.inr hr
    have hcount : min (m.result s).toNat data.val.length = n := by
      rcases hr with hr | ⟨hr, hn⟩
      · omega
      · omega
    have hreported : reported s (m.result s) (.writeAt (some path) offset (some data) flusher) path' start' =
        accepted path offset.toNat data.val f 0 n path' start' := by
      unfold reported
      dsimp only
      rw [hf]
      dsimp only
      rw [hcount]
    rw [hreported] at hb
    apply hwrote path' start' b
    rcases hb with hnew | ⟨hnone, -, hheld⟩
    · exact Or.inl hnew
    · exact Or.inr ⟨hnone, hheld⟩
  · have hneg : m.result s < 0 := by
      rcases hr with hr | ⟨-, hn⟩
      · rw [hr]
        exact int32_neg (Nat.le_of_not_lt hsmall) (by omega)
      · omega
    rw [reported_none (by omega)] at hb
    rcases hb with hb | ⟨-, hlost, hheld⟩
    · cases hb
    · apply hwrote path' start' b (Or.inr ⟨?_, hheld⟩)
      unfold unreported at hlost
      rw [decide_eq_false_iff_not] at hlost
      unfold accepted
      rw [if_neg]
      rintro ⟨hpath, -, hge, hend⟩
      exact hlost ⟨hneg, by omega, hpath, hge, by omega⟩

/-- `fs_cache_write_at` owes what it reports and is not yet with a flusher. -/
theorem fsCacheWriteAt_honours (fl : Flushers σ) (path : Option Path) (offset : UInt32)
    (data : Option Buffer) (flusher : Option Nat) (hok : SlotsOk s) :
    let m := fsCacheWriteAt fl path offset (data.map Subtype.val) flusher
    SlotsOk (m.state s) ∧ Honours (.writeAt path offset data flusher) (m.result s) s (m.log s) (m.state s) := by
  intro m
  -- A call that fails at once.
  have hstop {r : Int} (hm : m s = (r, s, [])) (hr : r ≤ 0) :
      SlotsOk (m.state s) ∧ Honours (.writeAt path offset data flusher) (m.result s) s (m.log s) (m.state s) := by
    unfold Traced.state Traced.result Traced.log
    rw [hm]
    refine ⟨hok, (Keeps.refl s []).honours fun path' start' => ?_⟩
    cases path with
    | none => rfl
    | some path =>
      cases data with
      | none => rfl
      | some data => exact reported_none hr path' start'
  have hdef : m = fsCacheWriteAt fl path offset (data.map Subtype.val) flusher := rfl
  clear_value m
  unfold fsCacheWriteAt at hdef
  split at hdef
  · exact hstop (by rw [hdef]; rfl) (Int.le_refl 0)
  · cases path with
    | none => exact hstop (by rw [hdef]; rfl) (by decide)
    | some path =>
      cases data with
      | none => exact hstop (by rw [hdef]; rfl) (by decide)
      | some data =>
        rw [Option.map_some] at hdef
        dsimp only at hdef
        split at hdef
        · exact hstop (by rw [hdef]; rfl) (by decide)
        · cases hf : flusher.or s.flusher with
          | none => exact hstop (by rw [hdef, Traced.reads_bind, id, hf]; rfl) (by decide)
          | some f =>
            have hm : m s = (if !s.enabled || !pathIsCacheable path then callFlusher fl f path offset.toNat data.val
                else writeFrom fl path offset.toNat data.val f data.val.length 0) s := by
              rw [hdef, Traced.reads_bind, id, hf]
            unfold Traced.state Traced.result Traced.log
            rw [hm]
            split
            · exact ⟨hok.machine _, honours_direct hf _ _⟩
            · next hdirect =>
              rw [Bool.or_eq_true, not_or, Bool.not_eq_true', Bool.not_eq_true', Bool.not_eq_false,
                Bool.not_eq_false] at hdirect
              have hwrites : Writes path offset.toNat data.val f 0
                  (writeFrom fl path offset.toNat data.val f data.val.length 0) s :=
                writeFrom_writes hdirect.2 data.val.length hok hdirect.1 (Nat.zero_le data.val.length)
              exact ⟨hwrites.1, honours_writes hf hwrites⟩

end

/-- Every call keeps the slots in order and honours what is owed. -/
theorem perform_honours (fl : Flushers σ) (ld : Loaders σ) (a : Action) (hok : SlotsOk s) :
    SlotsOk ((perform fl ld a).state s) ∧
      Honours a ((perform fl ld a).result s).1 s ((perform fl ld a).log s)
        ((perform fl ld a).state s) := by
  cases a with
  | readAt path offset buffer size loader =>
    obtain ⟨hkeeps, hok'⟩ := fsCacheReadAt_ends fl path offset buffer size (loader.map ld) hok
    exact ⟨hok', hkeeps.honours fun _ _ => rfl⟩
  | writeAt path offset data flusher =>
    obtain ⟨hok', hhonours⟩ := fsCacheWriteAt_honours fl path offset data flusher hok
    unfold perform
    rw [Traced.log_bind, Traced.log_pure, List.append_nil]
    exact ⟨hok', hhonours⟩
  | flush =>
    have hends : Traced.Ends Keeps (fun _ t => SlotsOk t) (perform fl ld .flush) s :=
      Traced.Ends.bind Keeps.trans (fsCacheFlush_ends fl hok) fun _ t h => Traced.Ends.pure (Keeps.refl t []) h.1
    exact ⟨hends.2, hends.1.honours fun _ _ => rfl⟩
  | invalidatePath path =>
    have hends : Traced.Ends Keeps (fun _ t => SlotsOk t) (perform fl ld (.invalidatePath path)) s := by
      apply Traced.Ends.bind Keeps.trans (Q := fun _ t => GivenUp s t)
      · unfold fsCacheInvalidatePath
        apply Traced.Ends.reads_bind
        exact invalidateAll_ends fl path _ hok
      · exact fun _ t h => Traced.Ends.pure (Keeps.refl t []) h.ok
    exact ⟨hends.2, hends.1.honours fun _ _ => rfl⟩
  | ctl cmd arg1 =>
    have hends : Traced.Ends Keeps (fun _ t => SlotsOk t) (perform fl ld (.ctl cmd arg1)) s :=
      Traced.Ends.bind Keeps.trans (fsCacheCtl_ends fl cmd arg1 hok) fun _ t h => Traced.Ends.pure (Keeps.refl t []) h
    exact ⟨hends.2, hends.1.honours fun _ _ => rfl⟩
  | setFlusher flusher =>
    have hkeeps : Keeps s [] { s with flusher := flusher } := fun _ _ _ h => Or.inl h
    exact ⟨⟨hok.count, hok.valid, hok.full, hok.bounded, hok.active, hok.unique, hok.enabled⟩,
      hkeeps.honours fun _ _ => rfl⟩

/-- What is owed after a call: what it reports comes in, what it may have written without reporting
it and what a flusher has taken goes out. -/
def Owed.after (owed new : Owed) (lost : Path → Nat → Bool) (log : List FlusherCall) : Owed :=
  fun path start =>
  ((new path start).or (if lost path start then none else owed path start)).filter fun b =>
    !log.any (confirms path start b)

def step (fl : Flushers σ) (ld : Loaders σ) : Cache σ × Owed → Action → Option (Cache σ × Owed)
  | (s, owed), a =>
    let r := ((perform fl ld a).result s).1
    some ((perform fl ld a).state s, owed.after (reported s r a) (unreported r a) ((perform fl ld a).log s))

structure Durable (s : Cache σ × Owed) : Prop where
  ok : SlotsOk s.1
  held : ∀ path start b, s.2 path start = some b → Held s.1 path start b

/-- A step keeps every block that a write has reported. -/
theorem Durable.step {ld : Loaders σ} {s s' : Cache σ × Owed} {a : Action} (h : Durable s)
    (hstep : step fl ld s a = some s') :
    Durable s' := by
  obtain ⟨s, owed⟩ := s
  obtain rfl := Option.some.inj hstep
  obtain ⟨hok, hhonours⟩ := perform_honours fl ld a h.ok
  refine ⟨hok, fun path start b hb => ?_⟩
  unfold Owed.after at hb
  rw [Option.filter_eq_some_iff, Bool.not_eq_true'] at hb
  obtain ⟨hor, hlog⟩ := hb
  have hheld := hhonours path start b
  rw [hlog] at hheld
  apply (hheld ?_).resolve_right Bool.false_ne_true
  rw [Option.or_eq_some_iff] at hor
  rcases hor with hnew | ⟨hnone, hold⟩
  · exact Or.inl hnew
  · split at hold
    · cases hold
    · next hlost => exact Or.inr ⟨hnone, (Bool.not_eq_true _).mp hlost, h.held path start b hold⟩

theorem slotsOk_fsCacheInit (machine : σ) : SlotsOk (fsCacheInit machine) := by
  refine ⟨popcount_zero.symm, fun i hi => ?_, fun i hi => ?_, fun i hi => ?_, fun i hi => ?_,
    fun i j hi => ?_,
    fun hen => ?_⟩
  · cases hi
  · cases hi
  · cases hi
  · cases hi
  · cases hi
  · cases hen

/-- In every run, whatever the flushers and loaders do, each full block that has been reported as
written is in a valid dirty slot with exactly its data until its flusher has taken it; `dirty_count`
is the number of dirty slots, dirty slots are valid, no two valid slots are for one block, and only
active slots are valid. -/
theorem cacheDurability_run (fl : Flushers σ) (ld : Loaders σ) (machine : σ) {as : List Action}
    {t : Cache σ × Owed} (h : Run (step fl ld) (fsCacheInit machine, fun _ _ => none) as t) :
    Durable t := by
  apply h.invariant fun s a s' hdurable hstep => Durable.step hdurable hstep
  exact ⟨slotsOk_fsCacheInit machine, fun _ _ _ hb => by cases hb⟩

def failing : Flushers Unit := fun _ _ _ _ _ => (-1, ())

def noBytes : Loaders Unit := fun _ _ _ _ _ => (0, [], ())

def zeroBlock : Buffer := ⟨List.replicate blockSize 0, by rw [List.length_replicate]; decide⟩

/-- A flusher that always fails: the block stays in the cache. -/
theorem cacheDurability_run_failing :
    ∃ t, Run (step failing noBytes) (fsCacheInit (), fun _ _ => none)
        [.writeAt (some [47]) 0 (some zeroBlock) (some 0), .flush, .ctl 4 0] t ∧ Durable t := by
  refine ⟨_, .cons rfl (.cons rfl (.cons rfl (.nil _))), ?_⟩
  exact cacheDurability_run failing noBytes () (.cons rfl (.cons rfl (.cons rfl (.nil _))))

end Monios.Analysis.FsCache
