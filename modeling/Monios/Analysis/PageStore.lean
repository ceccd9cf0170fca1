import Monios.Analysis.PageCodec
import Monios.Library.Bitmap
import Monios.Library.Run

/-!
# The compressed-page store

`Kept` is what the store promises at every point of a run: its two counters count the slots, no two
slots are for one page, and a page that was compressed is given back.

The counters and the slots are right as long as `ZCOMP_CTL_DROP` is given only while no slot is in
use: it frees the slots and resets one of the counters only (`counted_of_run`).  No page that was
compressed is given back: `zs.c` looks for the magic number of an object at the wrong place, does
not find it and takes the object for none (`zcompDecompressPage_false`).  So the whole promise holds
in the runs in which nothing is compressed (`kept_of_run`).
-/

set_option autoImplicit false

namespace Monios.Analysis.PageStore

open Monios.Library Monios.Library.Bitmap Monios.Model.Zcomp

def inUse (slots : Fin maxPages → Slot) (i : Fin maxPages) : Bool :=
  decide ((slots i).state ≠ .free)

def isCompressed (slots : Fin maxPages → Slot) (i : Fin maxPages) : Bool :=
  decide ((slots i).state = .compressed)

/-- For every address, the pages of the calls of `zcomp_compress_page` that have succeeded since the
page was given back for the last time, or dropped.  The first of them is the page that is
compressed: the others were found compressed already, and nothing was done. -/
abbrev Pages := UInt64 → List Page

def Pages.note (pages : Pages) (vaddr : UInt64) (page : Page) (ok : Bool) : Pages :=
  if ok then Function.update pages vaddr (pages vaddr ++ [page]) else pages

structure System where
  store : Store
  pages : Pages

structure Kept (y : System) : Prop where
  tracked : y.store.info.trackedPages = popcount (inUse y.store.slots)
  compressed : y.store.info.compressedPages = popcount (isCompressed y.store.slots)
  distinct : ∀ i j, (y.store.slots i).state ≠ .free → (y.store.slots j).state ≠ .free →
    (y.store.slots i).vaddr = (y.store.slots j).vaddr → i = j
  returned : ∀ vaddr page, (y.pages vaddr).head? = some page → ∀ out, ∃ back s',
    zcompDecompressPage vaddr (some out) y.store = (true, some back, s') ∧ (List.range pageSize).map back = page.val

inductive Call where
  | track (vaddr : UInt64)
  | touch (vaddr : UInt64)
  | compress (vaddr : UInt64) (page : Option Page) (heap : HeapReply)
  | decompress (vaddr : UInt64) (outBuffer : Option Memory)
  | reclaim (mem : UInt64 → Page) (heap : Fin maxPages → HeapReply)
  | ctl (cmd arg1 : UInt64) (mem : UInt64 → Page) (heap : Fin maxPages → HeapReply)

def noteReclaim (mem : UInt64 → Page) (heap : Fin maxPages → HeapReply) :
    List (Fin maxPages) → System → Pages
  | [], y => y.pages
  | i :: rest, y =>
    let (ok, s) := reclaimSlot mem heap i y.store
    noteReclaim mem heap rest ⟨s, y.pages.note (y.store.slots i).vaddr (mem (y.store.slots i).vaddr) ok⟩

def reclaim (mem : UInt64 → Page) (heap : Fin maxPages → HeapReply) (y : System) : System :=
  ⟨(zcompReclaimPass mem heap y.store).2,
    if y.store.info.enabled then noteReclaim mem heap (List.finRange maxPages) { y with store := y.store.startPass }
    else y.pages⟩

def step (y : System) : Call → Option System
  | .track vaddr => some { y with store := (zcompTrack vaddr y.store).2 }
  | .touch vaddr => some { y with store := zcompTouch vaddr y.store }
  | .compress vaddr page heap =>
    let (ok, s) := zcompCompressPage vaddr page heap y.store
    some ⟨s, page.elim y.pages fun page => y.pages.note vaddr page ok⟩
  | .decompress vaddr outBuffer =>
    let (ok, _, s) := zcompDecompressPage vaddr outBuffer y.store
    some ⟨s, if ok then Function.update y.pages vaddr [] else y.pages⟩
  | .reclaim mem heap => some (reclaim mem heap y)
  | .ctl cmd arg1 mem heap =>
    if cmd = ctlReclaim then some (reclaim mem heap y)
    else
      let (_, _, s) := zcompCtl cmd arg1 mem heap y.store
      some ⟨s, if cmd = ctlDrop then fun _ => [] else y.pages⟩

inductive Start : System → Prop
  | zero : Start ⟨{}, fun _ => []⟩
  | init (created : Bool) : Start ⟨zcompInit created, fun _ => []⟩

/-! ## The condition -/

/-- A drop is given only while no slot is in use. -/
def DropOk (y : System) : Call → Prop
  | .ctl cmd _ _ _ => cmd = ctlDrop → ∀ i, (y.store.slots i).state = .free
  | _ => True

/-- The compression of an active page stores nothing: there is no memory for the scratch buffer or
for the object, or the page does not get shorter. -/
def Unstored (page : Page) (heap : HeapReply) : Prop :=
  ∀ scratch, heap.scratch = some scratch → heap.object = none ∨
    (zcompLzEncode page.buffer scratch (UInt32.ofNat (pageSize + 64))).1 = 0 ∨
    pageSize ≤ (zcompLzEncode page.buffer scratch (UInt32.ofNat (pageSize + 64))).1

/-- The compressor works: it is switched on and has its pool. -/
def Running (s : Store) : Prop := s.info.enabled = true ∧ s.pool ≠ none

/-- There is a slot for the page, or one can be taken. -/
def HasSlot (s : Store) (vaddr : UInt64) : Prop :=
  vaddr ≠ 0 ∧ ∃ i, (s.slots i).state = .free ∨ (s.slots i).vaddr = vaddr

/-- A reclaim pass stores nothing. -/
def ReclaimOk (s : Store) (mem : UInt64 → Page) (heap : Fin maxPages → HeapReply) : Prop :=
  Running s → ∀ i, (s.slots i).state = .active → (s.slots i).referenced = false →
    Unstored (mem (s.slots i).vaddr) (heap i)

/-- Nothing is compressed, and nothing dropped while slots are in use. -/
def CallOk (y : System) : Call → Prop
  | .compress vaddr page heap => Running y.store → HasSlot y.store vaddr → ∀ p, page = some p →
    Unstored p heap
  | .reclaim mem heap => ReclaimOk y.store mem heap
  | .ctl cmd _ mem heap => (cmd = ctlDrop → ∀ i, (y.store.slots i).state = .free) ∧
      (cmd = ctlReclaim → ReclaimOk y.store mem heap)
  | _ => True

/-- A call that is in order drops nothing that is stored. -/
theorem CallOk.dropOk {y : System} {c : Call} (h : CallOk y c) : DropOk y c := by
  cases c with
  | ctl cmd arg1 mem heap => exact h.1
  | _ => exact trivial

/-! ## The counters and the slots -/

/-- The counters count the slots, and the slots in use are for different pages. -/
structure Counted (s : Store) : Prop where
  tracked : s.info.trackedPages = popcount (inUse s.slots)
  compressed : s.info.compressedPages = popcount (isCompressed s.slots)
  distinct : ∀ i j, (s.slots i).state ≠ .free → (s.slots j).state ≠ .free → (s.slots i).vaddr = (s.slots j).vaddr → i = j
  address : ∀ i, (s.slots i).state ≠ .free → (s.slots i).vaddr ≠ 0

/-- At the start no slot is in use. -/
theorem counted_start {y : System} (h : Start y) : Counted y.store := by
  have hfree (f : Slot → Bool) (hf : f {} = false) : 0 = popcount fun _ : Fin maxPages => f {} := by
    rw [hf, popcount_zero]
  cases h with
  | zero =>
    exact ⟨hfree (fun slot => decide (slot.state ≠ .free)) rfl,
      hfree (fun slot => decide (slot.state = .compressed)) rfl,
      fun _ _ hi => absurd rfl hi, fun _ hi => absurd rfl hi⟩
  | init created =>
    exact ⟨hfree (fun slot => decide (slot.state ≠ .free)) rfl,
      hfree (fun slot => decide (slot.state = .compressed)) rfl,
      fun _ _ hi => absurd rfl hi, fun _ hi => absurd rfl hi⟩

section

variable {s : Store} {vaddr : UInt64} {i : Fin maxPages}

/-- The slot that is found is in use for the page. -/
theorem zcompFindSlot_some (h : zcompFindSlot vaddr s = some i) :
    (s.slots i).state ≠ .free ∧ (s.slots i).vaddr = vaddr := by
  have := List.find?_some h
  simpa using this

/-- When none is found no slot in use is for the page. -/
theorem zcompFindSlot_none (h : zcompFindSlot vaddr s = none) (i : Fin maxPages)
    (hi : (s.slots i).state ≠ .free) :
    (s.slots i).vaddr ≠ vaddr := by
  have := List.find?_eq_none.mp h i (List.mem_finRange i)
  simp only [decide_eq_true_eq, not_and] at this
  exact this hi

/-- A free slot is free. -/
theorem freeSlot_some (h : freeSlot s = some i) : (s.slots i).state = .free := by
  have := List.find?_some h
  simpa using this

end

section

variable {s : Store} {i : Fin maxPages}

/-- What is not about addresses, states and the two counters does not matter. -/
theorem Counted.congr (h : Counted s) {s' : Store}
    (hslots : ∀ i, (s'.slots i).vaddr = (s.slots i).vaddr ∧ (s'.slots i).state = (s.slots i).state)
    (htracked : s'.info.trackedPages = s.info.trackedPages)
    (hcompressed : s'.info.compressedPages = s.info.compressedPages) : Counted s' := by
  have hvaddr (i : Fin maxPages) := (hslots i).1
  have hstate (i : Fin maxPages) := (hslots i).2
  have ht : inUse s'.slots = inUse s.slots := by
    funext i
    unfold inUse
    rw [hstate i]
  have hc : isCompressed s'.slots = isCompressed s.slots := by
    funext i
    unfold isCompressed
    rw [hstate i]
  constructor
  · rw [htracked, ht, h.tracked]
  · rw [hcompressed, hc, h.compressed]
  · simp only [hstate, hvaddr]
    exact h.distinct
  · simp only [hstate, hvaddr]
    exact h.address

/-- A slot that keeps page and state changes no count. -/
theorem setSlot_same (slot : Slot) (hvaddr : slot.vaddr = (s.slots i).vaddr)
    (hstate : slot.state = (s.slots i).state) (j : Fin maxPages) :
    ((s.setSlot i slot).slots j).vaddr = (s.slots j).vaddr ∧
      ((s.setSlot i slot).slots j).state = (s.slots j).state := by
  unfold Store.setSlot
  dsimp only
  by_cases hj : j = i
  · subst hj
    rw [Function.update_self]
    exact ⟨hvaddr, hstate⟩
  · rw [Function.update_of_ne hj]
    exact ⟨rfl, rfl⟩

/-- The counts stay when page and state of a slot do. -/
theorem Counted.setSlot (h : Counted s) {slot : Slot} (hvaddr : slot.vaddr = (s.slots i).vaddr)
    (hstate : slot.state = (s.slots i).state) : Counted (s.setSlot i slot) :=
  h.congr (setSlot_same slot hvaddr hstate) rfl rfl

theorem inUse_update (slots : Fin maxPages → Slot) (i : Fin maxPages) (slot : Slot) :
    inUse (Function.update slots i slot) =
      Function.update (inUse slots) i (decide (slot.state ≠ .free)) := by
  funext j
  unfold inUse
  by_cases hj : j = i
  · subst hj
    rw [Function.update_self, Function.update_self]
  · rw [Function.update_of_ne hj, Function.update_of_ne hj]

theorem isCompressed_update (slots : Fin maxPages → Slot) (i : Fin maxPages) (slot : Slot) :
    isCompressed (Function.update slots i slot) =
      Function.update (isCompressed slots) i (decide (slot.state = .compressed)) := by
  funext j
  unfold isCompressed
  by_cases hj : j = i
  · subst hj
    rw [Function.update_self, Function.update_self]
  · rw [Function.update_of_ne hj, Function.update_of_ne hj]

/-- Taking a slot adds one to its count, without wrap-around. -/
theorem popcount_set_mod {f : Fin maxPages → Bool} (hf : f i = false) :
    (popcount f + 1) % 2 ^ 32 = popcount (Function.update f i true) := by
  rw [popcount_set hf]
  have hle := popcount_le_card f
  rw [Fintype.card_fin] at hle
  have hmax : maxPages = 256 := rfl
  omega

/-- One slot is written, with an address that no other slot in use has. -/
theorem Counted.replace (h : Counted s) {slot : Slot} {s' : Store}
    (hslots : s'.slots = Function.update s.slots i slot)
    (htracked : s'.info.trackedPages = popcount (inUse s'.slots))
    (hcompressed : s'.info.compressedPages = popcount (isCompressed s'.slots))
    (haddress : slot.vaddr ≠ 0 ∧ ∀ j, j ≠ i → (s.slots j).state ≠ .free →
      (s.slots j).vaddr ≠ slot.vaddr) :
    Counted s' := by
  have hself : s'.slots i = slot := by
    rw [hslots, Function.update_self]
  have hother (j : Fin maxPages) (hj : j ≠ i) : s'.slots j = s.slots j := by
    rw [hslots, Function.update_of_ne hj]
  refine ⟨htracked, hcompressed, fun j k => ?_, fun j => ?_⟩
  · by_cases hj : j = i
    · subst hj
      by_cases hk : k = j
      · exact fun _ _ _ => hk.symm
      · rw [hself, hother k hk]
        exact fun _ hsk heq => absurd heq.symm (haddress.2 k hk hsk)
    · rw [hother j hj]
      by_cases hk : k = i
      · subst hk
        rw [hself]
        exact fun hsj _ heq => absurd heq (haddress.2 j hj hsj)
      · rw [hother k hk]
        exact h.distinct j k
  · by_cases hj : j = i
    · subst hj
      rw [hself]
      exact fun _ => haddress.1
    · rw [hother j hj]
      exact h.address j

/-- Tracking a page keeps the counters; the slot that is returned is in use, for the page. -/
theorem zcompTrack_spec (h : Counted s) (vaddr : UInt64) :
    Counted (zcompTrack vaddr s).2 ∧ ∀ i, (zcompTrack vaddr s).1 = some i →
        ((zcompTrack vaddr s).2.slots i).state ≠ .free ∧
        ((zcompTrack vaddr s).2.slots i).vaddr = vaddr := by
  unfold zcompTrack
  by_cases hvaddr : vaddr = 0
  · rw [if_pos hvaddr]
    exact ⟨h, fun i hi => nomatch hi⟩
  · rw [if_neg hvaddr]
    cases hfind : zcompFindSlot vaddr s with
    | some i =>
      refine ⟨h, fun j hj => ?_⟩
      obtain rfl := Option.some.inj hj
      exact zcompFindSlot_some hfind
    | none =>
      cases hslot : freeSlot s with
      | some i =>
        have hfree := freeSlot_some hslot
        refine ⟨h.replace (i := i) rfl ?_ ?_ ⟨hvaddr, fun j _ => zcompFindSlot_none hfind j⟩,
          fun j hj => ?_⟩
        · have hclear : inUse s.slots i = false := by
            unfold inUse
            rw [hfree]
            rfl
          change (s.info.trackedPages + 1) % 2 ^ 32 = popcount (inUse (Function.update s.slots i (trackedSlot vaddr)))
          rw [inUse_update, h.tracked]
          exact popcount_set_mod hclear
        · have hclear : isCompressed s.slots i = false := by
            unfold isCompressed
            rw [hfree]
            rfl
          change s.info.compressedPages = popcount (isCompressed (Function.update s.slots i (trackedSlot vaddr)))
          rw [isCompressed_update, h.compressed]
          congr 1
          exact (Function.update_eq_self_iff.mpr hclear.symm).symm
        · obtain rfl := Option.some.inj hj
          dsimp only [Store.setSlot]
          rw [Function.update_self]
          exact ⟨PageState.noConfusion, rfl⟩
      | none => exact ⟨h.congr (fun _ => ⟨rfl, rfl⟩) rfl rfl, fun i hi => nomatch hi⟩

/-- Touching a page changes no count. -/
theorem counted_touch (h : Counted s) (vaddr : UInt64) : Counted (zcompTouch vaddr s) := by
  unfold zcompTouch
  cases zcompFindSlot vaddr s with
  | some i => exact h.setSlot rfl rfl
  | none => exact h

/-- `zs_malloc` touches neither the slots nor the counters. -/
theorem zsMalloc_slots (size : Nat) (block : Option HeapAddress) (s : Store) :
    (zsMalloc size block s).2.slots = s.slots ∧ (zsMalloc size block s).2.info = s.info := by
  unfold zsMalloc
  split
  · exact ⟨rfl, rfl⟩
  · split
    · exact ⟨rfl, rfl⟩
    · split
      · exact ⟨rfl, rfl⟩
      · cases block with
        | none => exact ⟨rfl, rfl⟩
        | some next => exact ⟨rfl, rfl⟩

/-- An object is never freed: its magic number is not found. -/
theorem zsFree_eq (handle : Nat) (s : Store) : zsFree handle s = s := by
  unfold zsFree
  split
  · next obj _ _ => rw [if_pos obj.magicSeen_ne]
  · rfl

/-- A page that is kept compressed moves from one count to the other. -/
theorem counted_keepCompressed (h : Counted s) (hactive : (s.slots i).state = .active)
    (handle compLen : Nat) :
    Counted (keepCompressed i handle compLen s) := by
  have hne : (s.slots i).state ≠ .free := by
    rw [hactive]
    exact PageState.noConfusion
  have hold : ((s.slots i).zsHandle).elim s (fun old => zsFree old s) = s := by
    cases (s.slots i).zsHandle with
    | none => rfl
    | some old => exact zsFree_eq old s
  unfold keepCompressed
  dsimp only
  rw [hold]
  refine h.replace (i := i) rfl ?_ ?_ ⟨h.address i hne, fun j hj hstate heq => hj (h.distinct j i hstate hne heq)⟩
  · have hset : inUse s.slots i = true := decide_eq_true hne
    dsimp only [Store.setSlot]
    rw [inUse_update, h.tracked]
    congr 1
    exact (Function.update_eq_self_iff.mpr hset.symm).symm
  · have hclear : isCompressed s.slots i = false := by
      unfold isCompressed
      rw [hactive]
      rfl
    dsimp only [Store.setSlot]
    rw [isCompressed_update, h.compressed]
    exact popcount_set_mod hclear

/-- Compressing a slot keeps the counts, whether it succeeds or not. -/
theorem counted_compressSlot (h : Counted s) (hne : (s.slots i).state ≠ .free) (page : Page)
    (heap : HeapReply) :
    Counted (compressSlot i page heap s).2 := by
  unfold compressSlot
  by_cases hcompressed : (s.slots i).state = .compressed
  · rw [if_pos hcompressed]
    exact h
  · have hactive : (s.slots i).state = .active := by
      cases hstate : (s.slots i).state with
      | free => exact absurd hstate hne
      | active => rfl
      | compressed => exact absurd hstate hcompressed
    rw [if_neg hcompressed]
    cases heap.scratch with
    | none => exact h.congr (fun _ => ⟨rfl, rfl⟩) rfl rfl
    | some scratch =>
      dsimp only
      cases zcompLzEncode page.buffer scratch (UInt32.ofNat (pageSize + 64)) with
      | mk compLen out =>
        dsimp only
        split
        · exact h.setSlot rfl hactive.symm
        · obtain ⟨hslots, hinfo⟩ := zsMalloc_slots compLen heap.object s
          cases hmalloc : zsMalloc compLen heap.object s with
          | mk handle s' =>
            rw [hmalloc] at hslots hinfo
            dsimp only at hslots hinfo
            have hs' : Counted s' := h.congr (fun j => by rw [hslots]; exact ⟨rfl, rfl⟩) (by rw [hinfo]) (by rw [hinfo])
            cases handle with
            | none => exact hs'.congr (fun _ => ⟨rfl, rfl⟩) rfl rfl
            | some handle =>
              have hwritten : Counted (s'.write handle out compLen) :=
                hs'.congr (fun _ => ⟨rfl, rfl⟩) rfl rfl
              have hstate : ((s'.write handle out compLen).slots i).state = .active := by
                dsimp only [Store.write]
                rw [hslots, hactive]
              exact counted_keepCompressed hwritten hstate handle compLen

/-- Compressing a page keeps the counts. -/
theorem counted_compress (h : Counted s) (vaddr : UInt64) (page : Option Page) (heap : HeapReply) :
    Counted (zcompCompressPage vaddr page heap s).2 := by
  unfold zcompCompressPage
  cases page with
  | none => exact h
  | some page =>
    dsimp only
    split
    · exact h
    · unfold slotForPage
      cases hfind : zcompFindSlot vaddr s with
      | some i => exact counted_compressSlot h (zcompFindSlot_some hfind).1 page heap
      | none =>
        dsimp only
        obtain ⟨htrack, hslot⟩ := zcompTrack_spec h vaddr
        cases hresult : zcompTrack vaddr s with
        | mk result s =>
          rw [hresult] at htrack hslot
          cases result with
          | none => exact htrack
          | some i => exact counted_compressSlot htrack (hslot i rfl).1 page heap

/-- `zcomp_decompress_page` never succeeds, and changes nothing. -/
theorem zcompDecompressPage_false (vaddr : UInt64) (outBuffer : Option Memory) (s : Store) :
    (zcompDecompressPage vaddr outBuffer s).1 = false ∧
      (zcompDecompressPage vaddr outBuffer s).2.2 = s := by
  unfold zcompDecompressPage
  cases outBuffer with
  | none => exact ⟨rfl, rfl⟩
  | some out =>
    dsimp only
    split
    · exact ⟨rfl, rfl⟩
    · split
      · next handle _ _ =>
        have hsize : zsMallocUsableSize handle s = 0 := by
          unfold zsMallocUsableSize
          split
          · next obj _ => rw [if_pos obj.magicSeen_ne]
          · rfl
        rw [if_pos hsize]
        exact ⟨rfl, rfl⟩
      · exact ⟨rfl, rfl⟩

/-- Reclaiming a slot keeps the counts. -/
theorem counted_reclaimSlot (h : Counted s) (mem : UInt64 → Page) (heap : Fin maxPages → HeapReply)
    (i : Fin maxPages) :
    Counted (reclaimSlot mem heap i s).2 := by
  unfold reclaimSlot
  split
  · exact h
  · split
    · exact h.setSlot rfl rfl
    · exact counted_compress h _ _ _

theorem counted_reclaimFrom (mem : UInt64 → Page) (heap : Fin maxPages → HeapReply)
    (slots : List (Fin maxPages)) (n : Nat) (h : Counted s) :
    Counted (reclaimFrom mem heap slots n s).2 := by
  induction slots generalizing s n with
  | nil => exact h
  | cons i rest ih => exact ih _ (counted_reclaimSlot h mem heap i)

/-- A pass keeps the counts. -/
theorem counted_reclaim (h : Counted s) (mem : UInt64 → Page) (heap : Fin maxPages → HeapReply) :
    Counted (zcompReclaimPass mem heap s).2 := by
  unfold zcompReclaimPass
  split
  · exact h
  · exact counted_reclaimFrom mem heap _ 0 (h.congr (fun _ => ⟨rfl, rfl⟩) rfl rfl)

theorem dropSlot_of_free (h : ∀ i, (s.slots i).state = .free) (i : Fin maxPages) :
    dropSlot s i = s := by
  unfold dropSlot
  rw [h i]
  unfold Store.setSlot
  dsimp only
  rw [← h i, Function.update_eq_self]

/-- A drop while no slot is in use changes nothing. -/
theorem drop_of_free (h : Counted s) (hfree : ∀ i, (s.slots i).state = .free) : drop s = s := by
  have hzero : s.info.compressedPages = 0 := by
    rw [h.compressed, show isCompressed s.slots = fun _ => false from funext fun i => by
      unfold isCompressed
      rw [hfree i]
      rfl]
    exact popcount_zero
  have hslots (is : List (Fin maxPages)) : is.foldl dropSlot s = s := by
    induction is with
    | nil => rfl
    | cons i is ih =>
      rw [List.foldl_cons, dropSlot_of_free hfree i]
      exact ih
  unfold drop
  dsimp only
  rw [hslots, ← hzero]

/-- Every operation of `zcomp_ctl` that is in order keeps the counts. -/
theorem counted_ctl (h : Counted s) (cmd arg1 : UInt64) (mem : UInt64 → Page)
    (heap : Fin maxPages → HeapReply) (hok : cmd = ctlDrop → ∀ i, (s.slots i).state = .free) :
    Counted (zcompCtl cmd arg1 mem heap s).2.2 := by
  unfold zcompCtl
  split
  · exact h
  · split
    · exact counted_reclaim h mem heap
    · split
      · exact h.congr (fun _ => ⟨rfl, rfl⟩) rfl rfl
      · split
        · next hdrop =>
          dsimp only
          rw [drop_of_free h (hok hdrop)]
          exact h
        · exact h

end

/-- Every call that is in order keeps the counts. -/
theorem step_counted {y y' : System} (c : Call) (hok : DropOk y c) (h : Counted y.store)
    (hstep : step y c = some y') :
    Counted y'.store := by
  cases c with
  | track vaddr =>
    obtain rfl := Option.some.inj hstep
    exact (zcompTrack_spec h vaddr).1
  | touch vaddr =>
    obtain rfl := Option.some.inj hstep
    exact counted_touch h vaddr
  | compress vaddr page heap =>
    obtain rfl := Option.some.inj hstep
    exact counted_compress h vaddr page heap
  | decompress vaddr outBuffer =>
    obtain rfl := Option.some.inj hstep
    change Counted (zcompDecompressPage vaddr outBuffer y.store).2.2
    rw [(zcompDecompressPage_false vaddr outBuffer y.store).2]
    exact h
  | reclaim mem heap =>
    obtain rfl := Option.some.inj hstep
    exact counted_reclaim h mem heap
  | ctl cmd arg1 mem heap =>
    unfold step at hstep
    dsimp only at hstep
    split at hstep
    · obtain rfl := Option.some.inj hstep
      exact counted_reclaim h mem heap
    · obtain rfl := Option.some.inj hstep
      exact counted_ctl h cmd arg1 mem heap hok

/-- At every point of a run that drops nothing while slots are in use, the counters are right and
the slots in use are for different pages, whatever is compressed. -/
theorem counted_of_run {y t : System} {calls : List Call} (hstart : Start y)
    (h : RunWhile step DropOk y calls t) :
    Counted t.store :=
  h.invariant (fun _ c _ hok hi hstep => step_counted c hok hi hstep) (counted_start hstart)

/-! ## Pages that are given back -/

/-- Nothing is compressed. -/
structure Uncompressed (y : System) : Prop where
  slots : ∀ i, (y.store.slots i).state ≠ .compressed
  pages : ∀ vaddr, y.pages vaddr = []

/-- A page that was compressed is not given back. -/
theorem not_kept_of_noted {y : System} {vaddr : UInt64} {page : Page}
    (h : (y.pages vaddr).head? = some page) : ¬ Kept y := by
  intro hkept
  obtain ⟨back, s', heq, -⟩ := hkept.returned vaddr page h fun _ => 0
  have hfalse := (zcompDecompressPage_false vaddr (some fun _ => 0) y.store).1
  rw [heq] at hfalse
  exact Bool.noConfusion hfalse

/-- When nothing is compressed nothing is lost. -/
theorem Counted.kept {y : System} (h : Counted y.store) (hu : Uncompressed y) : Kept y where
  tracked := h.tracked
  compressed := h.compressed
  distinct := h.distinct
  returned vaddr page hpage := by
    rw [hu.pages vaddr] at hpage
    cases hpage

section

variable {y : System} {i : Fin maxPages}

/-- Whether anything is compressed depends on the states of the slots. -/
theorem Uncompressed.congr (h : Uncompressed y) {s : Store}
    (hslots : ∀ i, (s.slots i).state = (y.store.slots i).state) :
    Uncompressed ⟨s, y.pages⟩ :=
  ⟨fun i => by
    dsimp only
    rw [hslots i]
    exact h.slots i, h.pages⟩

/-- The page is not stored, and the slot stays what it is. -/
theorem compressSlot_unstored {s : Store} (hactive : (s.slots i).state = .active) {page : Page}
    {heap : HeapReply} (h : Unstored page heap) : (compressSlot i page heap s).1 = false ∧
      (∀ j, ((compressSlot i page heap s).2.slots j).vaddr = (s.slots j).vaddr ∧
        ((compressSlot i page heap s).2.slots j).state = (s.slots j).state) ∧
      (∀ j, j ≠ i → (compressSlot i page heap s).2.slots j = s.slots j) ∧
      (compressSlot i page heap s).2.info.enabled = s.info.enabled ∧
      (compressSlot i page heap s).2.pool = s.pool := by
  unfold compressSlot
  rw [if_neg (by rw [hactive]; exact PageState.noConfusion)]
  cases hscratch : heap.scratch with
  | none => exact ⟨rfl, fun _ => ⟨rfl, rfl⟩, fun _ _ => rfl, rfl, rfl⟩
  | some scratch =>
    have hstored := h scratch hscratch
    dsimp only
    cases hencode : zcompLzEncode page.buffer scratch (UInt32.ofNat (pageSize + 64)) with
    | mk compLen out =>
      rw [hencode] at hstored
      dsimp only at hstored ⊢
      split
      · refine ⟨rfl, setSlot_same _ rfl hactive.symm, fun j hj => ?_, rfl, rfl⟩
        dsimp only [Store.setSlot]
        rw [Function.update_of_ne hj]
      · next hlen =>
        have hnone : heap.object = none := by
          rcases hstored with hnone | hshort
          · exact hnone
          · exact absurd hshort hlen
        have hmalloc : zsMalloc compLen none s = (none, s) := by
          unfold zsMalloc
          split
          · rfl
          · split
            · rfl
            · split
              · rfl
              · rfl
        rw [hnone, hmalloc]
        exact ⟨rfl, fun _ => ⟨rfl, rfl⟩, fun _ _ => rfl, rfl, rfl⟩

/-- A slot that `zcomp_track` takes was free. -/
theorem zcompTrack_slot {s s' : Store} {vaddr : UInt64} {i : Fin maxPages}
    (hfind : zcompFindSlot vaddr s = none) (h : zcompTrack vaddr s = (some i, s')) :
    vaddr ≠ 0 ∧ (s.slots i).state = .free ∧
      s'.slots = Function.update s.slots i (trackedSlot vaddr) ∧ s'.info.enabled = s.info.enabled ∧
      s'.pool = s.pool := by
  unfold zcompTrack at h
  split at h
  · cases h
  · next hvaddr =>
    rw [hfind] at h
    dsimp only at h
    split at h
    · next hfree =>
      cases h
      exact ⟨hvaddr, freeSlot_some hfree, rfl, rfl, rfl⟩
    · cases h

/-- Tracking a page compresses nothing. -/
theorem zcompTrack_state (s : Store) (vaddr : UInt64) (hs : ∀ i, (s.slots i).state ≠ .compressed)
    (j : Fin maxPages) :
    ((zcompTrack vaddr s).2.slots j).state ≠ .compressed := by
  unfold zcompTrack
  split
  · exact hs j
  · split
    · exact hs j
    · split
      · next i _ =>
        dsimp only [Store.setSlot]
        by_cases hj : j = i
        · subst hj
          rw [Function.update_self]
          exact PageState.noConfusion
        · rw [Function.update_of_ne hj]
          exact hs j
      · exact hs j

theorem active_of_ne {slot : Slot} (hfree : slot.state ≠ .free)
    (hcompressed : slot.state ≠ .compressed) :
    slot.state = .active := by
  cases hstate : slot.state with
  | free => exact absurd hstate hfree
  | active => rfl
  | compressed => exact absurd hstate hcompressed

/-- A compression that stores nothing compresses nothing. -/
theorem zcompCompressPage_unstored {s : Store} (hs : ∀ i, (s.slots i).state ≠ .compressed)
    (hc : Counted s) (vaddr : UInt64) {page : Page} {heap : HeapReply}
    (h : Running s → HasSlot s vaddr → Unstored page heap) :
    (zcompCompressPage vaddr (some page) heap s).1 = false ∧
      ∀ j, ((zcompCompressPage vaddr (some page) heap s).2.slots j).state ≠ .compressed := by
  unfold zcompCompressPage
  dsimp only
  split
  · exact ⟨rfl, hs⟩
  · next hrunning =>
    have hrunning : Running s := by
      simpa [Running, Option.isNone_iff_eq_none] using hrunning
    unfold slotForPage
    cases hfind : zcompFindSlot vaddr s with
    | some i =>
      obtain ⟨hne, hvaddr⟩ := zcompFindSlot_some hfind
      have hslot : HasSlot s vaddr := ⟨hvaddr ▸ hc.address i hne, i, Or.inr hvaddr⟩
      obtain ⟨hfalse, hstates, -⟩ := compressSlot_unstored (active_of_ne hne (hs i)) (h hrunning hslot)
      exact ⟨hfalse, fun j => by
        dsimp only
        rw [(hstates j).2]
        exact hs j⟩
    | none =>
      dsimp only
      have htracked := zcompTrack_state s vaddr hs
      cases hresult : zcompTrack vaddr s with
      | mk result s' =>
        rw [hresult] at htracked
        cases result with
        | none => exact ⟨rfl, htracked⟩
        | some i =>
          obtain ⟨hvaddr, hfree, hslots, -⟩ := zcompTrack_slot hfind hresult
          have hactive : (s'.slots i).state = .active := by
            rw [hslots, Function.update_self]
            rfl
          obtain ⟨hfalse, hstates, -⟩ := compressSlot_unstored hactive (h hrunning ⟨hvaddr, i, Or.inl hfree⟩)
          exact ⟨hfalse, fun j => by
            dsimp only
            rw [(hstates j).2]
            exact htracked j⟩

/-- A slot in use is found by its page: no page has two. -/
theorem zcompFindSlot_of_counted {s : Store} (h : Counted s) {i : Fin maxPages}
    (hne : (s.slots i).state ≠ .free) :
    zcompFindSlot (s.slots i).vaddr s = some i := by
  cases hfind : zcompFindSlot (s.slots i).vaddr s with
  | none => exact absurd rfl (zcompFindSlot_none hfind i hne)
  | some j =>
    obtain ⟨hj, hvaddr⟩ := zcompFindSlot_some hfind
    rw [h.distinct j i hj hne hvaddr]

/-- What a round of a reclaim pass leaves as it is when it stores nothing: all but the reference bit
of its slot. -/
theorem reclaimSlot_unstored {s : Store} (hc : Counted s) {mem : UInt64 → Page}
    {heap : Fin maxPages → HeapReply} {i : Fin maxPages}
    (h : Running s → (s.slots i).state = .active → (s.slots i).referenced = false →
      Unstored (mem (s.slots i).vaddr) (heap i)) :
    (reclaimSlot mem heap i s).1 = false ∧
      (∀ j, ((reclaimSlot mem heap i s).2.slots j).state = (s.slots j).state) ∧
      (∀ j, j ≠ i → (reclaimSlot mem heap i s).2.slots j = s.slots j) ∧
      (reclaimSlot mem heap i s).2.info.enabled = s.info.enabled ∧
      (reclaimSlot mem heap i s).2.pool = s.pool := by
  unfold reclaimSlot
  split
  · exact ⟨rfl, fun _ => rfl, fun _ _ => rfl, rfl, rfl⟩
  · next hactive =>
    have hactive : (s.slots i).state = .active := not_not.mp hactive
    split
    · have hsame := setSlot_same { s.slots i with referenced := false } rfl rfl
      refine ⟨rfl, fun j => (hsame j).2, fun j hj => ?_, rfl, rfl⟩
      dsimp only [Store.setSlot]
      rw [Function.update_of_ne hj]
    · next hreferenced =>
      have hne : (s.slots i).state ≠ .free := by
        rw [hactive]
        exact PageState.noConfusion
      rw [if_neg (hc.address i hne)]
      unfold zcompCompressPage
      dsimp only
      split
      · exact ⟨rfl, fun _ => rfl, fun _ _ => rfl, rfl, rfl⟩
      · next hrunning =>
        have hrunning : Running s := by
          simpa [Running, Option.isNone_iff_eq_none] using hrunning
        unfold slotForPage
        rw [zcompFindSlot_of_counted hc hne]
        obtain ⟨hfalse, hstates, hothers, hsame⟩ := compressSlot_unstored hactive
          (h hrunning hactive (Bool.eq_false_iff.mpr hreferenced))
        exact ⟨hfalse, fun j => (hstates j).2, hothers, hsame⟩

/-- A pass over slots compresses nothing when the heap stores nothing. -/
theorem uncompressed_reclaimFrom (mem : UInt64 → Page) (heap : Fin maxPages → HeapReply)
    (slots : List (Fin maxPages)) (hnodup : slots.Nodup) (n : Nat) (hc : Counted y.store)
    (hu : Uncompressed y) (h : Running y.store → ∀ i ∈ slots, (y.store.slots i).state = .active →
      (y.store.slots i).referenced = false →
      Unstored (mem (y.store.slots i).vaddr) (heap i)) :
    Uncompressed ⟨(reclaimFrom mem heap slots n y.store).2, noteReclaim mem heap slots y⟩ := by
  induction slots generalizing y n with
  | nil => exact hu
  | cons i rest ih =>
    obtain ⟨hi, hrest⟩ := List.nodup_cons.mp hnodup
    obtain ⟨hfalse, hstates, hothers, henabled, hpool⟩ :=
      reclaimSlot_unstored hc (fun hr => h hr i List.mem_cons_self)
    have hpages : y.pages.note (y.store.slots i).vaddr (mem (y.store.slots i).vaddr) (reclaimSlot mem heap i y.store).1 =
        y.pages := by
      rw [hfalse]
      rfl
    have hnext := hu.congr hstates
    rw [← hpages] at hnext
    refine ih hrest _ (counted_reclaimSlot hc mem heap i) hnext fun hrunning j hj => ?_
    dsimp only
    rw [hothers j (by rintro rfl; exact hi hj)]
    refine h ?_ j (List.mem_cons_of_mem _ hj)
    exact ⟨henabled ▸ hrunning.1, hpool ▸ hrunning.2⟩

/-- So does a pass over all slots. -/
theorem uncompressed_reclaim (mem : UInt64 → Page) (heap : Fin maxPages → HeapReply)
    (hc : Counted y.store) (hu : Uncompressed y) (h : ReclaimOk y.store mem heap) :
    Uncompressed (reclaim mem heap y) := by
  unfold reclaim zcompReclaimPass
  cases henabled : y.store.info.enabled with
  | false =>
    rw [if_pos (by decide), if_neg (by decide)]
    exact hu
  | true =>
    rw [if_neg (by decide), if_pos rfl]
    exact uncompressed_reclaimFrom (y := { y with store := y.store.startPass }) mem heap _
      (List.nodup_finRange _) 0
      (hc.congr (fun _ => ⟨rfl, rfl⟩) rfl rfl) (hu.congr fun _ => rfl) fun hr i _ => h hr i

/-- Calls for which the heap stores nothing leave nothing compressed. -/
theorem step_uncompressed {y' : System} (c : Call) (hok : CallOk y c) (hc : Counted y.store)
    (hu : Uncompressed y) (hstep : step y c = some y') : Uncompressed y' := by
  cases c with
  | track vaddr =>
    obtain rfl := Option.some.inj hstep
    exact ⟨zcompTrack_state y.store vaddr hu.slots, hu.pages⟩
  | touch vaddr =>
    obtain rfl := Option.some.inj hstep
    refine hu.congr fun i => ?_
    unfold zcompTouch
    split
    · next j _ =>
      have hsame := setSlot_same { y.store.slots j with referenced := true } rfl rfl
      exact (hsame i).2
    · rfl
  | compress vaddr page heap =>
    obtain rfl := Option.some.inj hstep
    cases page with
    | none => exact hu
    | some page =>
      obtain ⟨hfalse, hstates⟩ :=
        zcompCompressPage_unstored hu.slots hc vaddr (fun hrunning hslot => hok hrunning hslot page rfl)
      refine ⟨hstates, fun v => ?_⟩
      change y.pages.note vaddr page (zcompCompressPage vaddr (some page) heap y.store).1 v = []
      rw [hfalse]
      exact hu.pages v
  | decompress vaddr outBuffer =>
    obtain rfl := Option.some.inj hstep
    obtain ⟨hfalse, hsame⟩ := zcompDecompressPage_false vaddr outBuffer y.store
    change Uncompressed ⟨(zcompDecompressPage vaddr outBuffer y.store).2.2,
      if (zcompDecompressPage vaddr outBuffer y.store).1 then Function.update y.pages vaddr [] else y.pages⟩
    rw [hfalse, hsame]
    exact hu
  | reclaim mem heap =>
    obtain rfl := Option.some.inj hstep
    exact uncompressed_reclaim mem heap hc hu hok
  | ctl cmd arg1 mem heap =>
    unfold step at hstep
    dsimp only at hstep
    split at hstep
    · next hcmd =>
      obtain rfl := Option.some.inj hstep
      exact uncompressed_reclaim mem heap hc hu (hok.2 hcmd)
    · next hcmd =>
      obtain rfl := Option.some.inj hstep
      have hpages (v : UInt64) : (if cmd = ctlDrop then fun _ => [] else y.pages) v = [] := by
        split
        · rfl
        · exact hu.pages v
      refine ⟨fun i => ?_, hpages⟩
      change ((zcompCtl cmd arg1 mem heap y.store).2.2.slots i).state ≠ .compressed
      unfold zcompCtl
      rw [if_neg hcmd]
      split
      · exact hu.slots i
      · split
        · exact hu.slots i
        · split
          · next hdrop =>
            dsimp only
            rw [drop_of_free hc (hok.1 hdrop)]
            exact hu.slots i
          · exact hu.slots i

end

/-- At every point of a run that compresses nothing, and drops nothing while slots are in use, the
store keeps what it promises. -/
theorem kept_of_run {y t : System} {calls : List Call} (hstart : Start y)
    (h : RunWhile step CallOk y calls t) : Kept t := by
  have hstarted : Uncompressed y := by
    cases hstart with
    | zero => exact ⟨fun _ => PageState.noConfusion, fun _ => rfl⟩
    | init created => exact ⟨fun _ => PageState.noConfusion, fun _ => rfl⟩
  have hboth : Counted t.store ∧ Uncompressed t :=
    h.invariant
      (I := fun y => Counted y.store ∧ Uncompressed y)
      (fun _ c _ hok hi hstep => ⟨step_counted c hok.dropOk hi.1 hstep, step_uncompressed c hok hi.1 hi.2 hstep⟩)
      ⟨counted_start hstart, hstarted⟩
  exact hboth.1.kept hboth.2

def zeroPage : Page := ⟨List.replicate pageSize 0, List.length_replicate⟩

/-- There is memory for the scratch buffer, and none for an object. -/
def fullHeap : HeapReply := ⟨some fun _ => 0, none⟩

def emptyDrop : Call := .ctl ctlDrop 0 (fun _ => zeroPage) (fun _ => fullHeap)

/-- A page is tracked and touched; then there is no memory to compress it, neither at once nor in
two passes. -/
def pageCalls : List Call :=
  [.track 4096, .touch 4096, .compress 4096 (some zeroPage) fullHeap, .reclaim (fun _ => zeroPage) (fun _ => fullHeap),
    .ctl ctlReclaim 0 (fun _ => zeroPage) (fun _ => fullHeap), .decompress 4096 (some fun _ => 0)]

/-- A heap that is full stores nothing. -/
theorem unstored_fullHeap (page : Page) : Unstored page fullHeap := fun _ _ => Or.inl rfl

/-- Every call has a result. -/
theorem exists_step (y : System) (c : Call) : ∃ y', step y c = some y' := by
  cases c with
  | ctl cmd arg1 mem heap =>
    unfold step
    dsimp only
    split
    · exact ⟨_, rfl⟩
    · exact ⟨_, rfl⟩
  | _ => exact ⟨_, rfl⟩

/-- Calls that are in order have a run. -/
theorem exists_run {calls : List Call} (hok : ∀ c ∈ calls, ∀ y, CallOk y c) (y : System) :
    ∃ t, RunWhile step CallOk y calls t := by
  induction calls generalizing y with
  | nil => exact ⟨y, .nil y⟩
  | cons c calls ih =>
    obtain ⟨y', hstep⟩ := exists_step y c
    obtain ⟨t, hrun⟩ := ih (fun c hc => hok c (List.mem_cons_of_mem _ hc)) y'
    exact ⟨t, .cons (hok c List.mem_cons_self y) hstep hrun⟩

/-- Pages are tracked, touched, refused and dropped, and none is lost. -/
theorem kept_pageCalls :
    ∃ t, RunWhile step CallOk ⟨zcompInit true, fun _ => []⟩ (emptyDrop :: pageCalls) t ∧
      Kept t := by
  obtain ⟨y, hdrop⟩ := exists_step ⟨zcompInit true, fun _ => []⟩ emptyDrop
  have hok : ∀ c ∈ pageCalls, ∀ y, CallOk y c := by
    intro c hc y
    unfold pageCalls at hc
    simp only [List.mem_cons, List.not_mem_nil, or_false] at hc
    rcases hc with rfl | rfl | rfl | rfl | rfl | rfl
    · exact trivial
    · exact trivial
    · exact fun _ _ page _ => unstored_fullHeap page
    · exact fun _ _ _ _ => unstored_fullHeap _
    · exact ⟨fun hcmd => absurd hcmd (by decide), fun _ _ _ _ _ => unstored_fullHeap _⟩
    · exact trivial
  obtain ⟨t, hrest⟩ := exists_run hok y
  have hempty : CallOk ⟨zcompInit true, fun _ => []⟩ emptyDrop :=
    ⟨fun _ _ => rfl, fun hcmd => absurd hcmd (by decide)⟩
  have hrun := RunWhile.cons hempty hdrop hrest
  exact ⟨t, hrun, kept_of_run (.init true) hrun⟩

/-! ## The condition is exact -/

/-- `zs_malloc` finds a size class for every size up to a page. -/
theorem zsMalloc_isSome {size : Nat} (hpos : 0 < size) (hsize : size ≤ zsMaxSize) {s : Store}
    (hpool : s.pool = some zsCreatePool) (next : HeapAddress) :
    ∃ handle s', zsMalloc size (some next) s = (some handle, s') := by
  have hclass : (zsCreatePool.sizeClasses.findIdx? fun cls => decide (cls ≥ size)).isSome := by
    rw [List.findIdx?_isSome, List.any_eq_true]
    exact ⟨zsMaxSize, by decide, decide_eq_true hsize⟩
  obtain ⟨idx, hidx⟩ := Option.isSome_iff_exists.mp hclass
  unfold zsMalloc
  rw [hpool]
  dsimp only
  rw [if_neg (by omega), hidx]
  exact ⟨_, _, rfl⟩

/-- A page that the heap takes is compressed. -/
theorem compressSlot_stored {s : Store} {i : Fin maxPages} {page : Page} {heap : HeapReply}
    (h : ¬ Unstored page heap) (hpool : s.pool = some zsCreatePool) :
    (compressSlot i page heap s).1 = true := by
  unfold compressSlot
  split
  · rfl
  · unfold Unstored at h
    push Not at h
    obtain ⟨scratch, hscratch, hobject, hpos, hlt⟩ := h
    rw [hscratch]
    dsimp only
    cases hencode : zcompLzEncode page.buffer scratch (UInt32.ofNat (pageSize + 64)) with
    | mk compLen out =>
      rw [hencode] at hpos hlt
      dsimp only at hpos hlt ⊢
      rw [if_neg (by omega)]
      obtain ⟨next, hnext⟩ := Option.ne_none_iff_exists'.mp hobject
      obtain ⟨handle, s', hmalloc⟩ := zsMalloc_isSome (Nat.pos_of_ne_zero hpos) (Nat.le_of_lt hlt) hpool next
      rw [hnext, hmalloc]

/-- A call that the condition leaves out, because it compresses a page, breaks the promise. -/
theorem not_kept_compress {y : System} {vaddr : UInt64} {page : Page} {heap : HeapReply}
    (henabled : y.store.info.enabled = true) (hpool : y.store.pool = some zsCreatePool)
    (hslot : HasSlot y.store vaddr) (h : ¬ Unstored page heap) {y' : System}
    (hstep : step y (.compress vaddr (some page) heap) = some y') : ¬ Kept y' := by
  have htrue : (zcompCompressPage vaddr (some page) heap y.store).1 = true := by
    unfold zcompCompressPage
    dsimp only
    rw [if_neg (by rw [henabled, hpool]; decide)]
    unfold slotForPage
    cases hfind : zcompFindSlot vaddr y.store with
    | some i => exact compressSlot_stored h hpool
    | none =>
      obtain ⟨hvaddr, i, hi⟩ := hslot
      have hfree : ∃ j, freeSlot y.store = some j := by
        have hsome : (freeSlot y.store).isSome := by
          unfold freeSlot
          rw [List.find?_isSome]
          refine ⟨i, List.mem_finRange i, decide_eq_true ?_⟩
          rcases hi with hi | hi
          · exact hi
          · exact not_not.mp fun hne => zcompFindSlot_none hfind i hne hi
        exact Option.isSome_iff_exists.mp hsome
      obtain ⟨j, hj⟩ := hfree
      unfold zcompTrack
      dsimp only
      rw [if_neg hvaddr, hfind]
      dsimp only
      rw [hj]
      exact compressSlot_stored h hpool
  obtain rfl := Option.some.inj hstep
  have hnoted : (y.pages.note vaddr page (zcompCompressPage vaddr (some page) heap y.store).1 vaddr) ≠ [] := by
    rw [htrue]
    unfold Pages.note
    rw [if_pos rfl, Function.update_self]
    exact List.append_ne_nil_of_right_ne_nil _ (List.cons_ne_nil _ _)
  obtain ⟨first, rest, hfirst⟩ := List.exists_cons_of_ne_nil hnoted
  have hhead : (y.pages.note vaddr page (zcompCompressPage vaddr (some page) heap y.store).1 vaddr).head? = some first := by
    rw [hfirst]
    rfl
  exact not_kept_of_noted (y := ⟨_, y.pages.note vaddr page (zcompCompressPage vaddr (some page) heap y.store).1⟩) hhead

theorem setSlot_state {s : Store} {i j : Fin maxPages} {slot : Slot}
    (hfree : j = i → slot.state = .free) (hother : j ≠ i → (s.slots j).state = .free) :
    ((s.setSlot i slot).slots j).state = .free := by
  unfold Store.setSlot
  dsimp only
  by_cases hj : j = i
  · subst hj
    rw [Function.update_self]
    exact hfree rfl
  · rw [Function.update_of_ne hj]
    exact hother hj

/-- Dropping a slot frees it and no other one, and does not count it. -/
theorem dropSlot_spec (s : Store) (i : Fin maxPages) : (dropSlot s i).info = s.info ∧
      ∀ j, j = i ∨ (s.slots j).state = .free → ((dropSlot s i).slots j).state = .free := by
  unfold dropSlot
  split
  · rw [zsFree_eq]
    refine ⟨rfl, fun j hj => setSlot_state (fun _ => rfl) fun hne => ?_⟩
    unfold Store.setSlot
    dsimp only
    rw [Function.update_of_ne hne]
    exact hj.resolve_left hne
  · exact ⟨rfl, fun j hj => setSlot_state (fun _ => rfl) fun hne => hj.resolve_left hne⟩

/-- Dropping several slots frees these. -/
theorem foldl_dropSlot_spec (is : List (Fin maxPages)) (s : Store) :
    (is.foldl dropSlot s).info = s.info ∧
      ∀ j, j ∈ is ∨ (s.slots j).state = .free → ((is.foldl dropSlot s).slots j).state = .free := by
  induction is generalizing s with
  | nil => exact ⟨rfl, fun j hj => hj.resolve_left List.not_mem_nil⟩
  | cons i is ih =>
    obtain ⟨hinfo, hfree⟩ := ih (dropSlot s i)
    obtain ⟨hinfo', hfree'⟩ := dropSlot_spec s i
    refine ⟨hinfo.trans hinfo', fun j hj => hfree j ?_⟩
    rcases hj with hj | hj
    · rcases List.mem_cons.mp hj with hj | hj
      · exact Or.inr (hfree' j (Or.inl hj))
      · exact Or.inl hj
    · exact Or.inr (hfree' j (Or.inr hj))

/-- A drop while a slot is in use breaks the promise. -/
theorem not_kept_drop {y : System} (h : Counted y.store) {i : Fin maxPages}
    (hne : (y.store.slots i).state ≠ .free) (pages : Pages) : ¬ Kept ⟨drop y.store, pages⟩ := by
  intro hkept
  obtain ⟨hinfo, hfree⟩ := foldl_dropSlot_spec (List.finRange maxPages) y.store
  have hpos : 0 < y.store.info.trackedPages := by
    rw [h.tracked]
    exact popcount_pos (decide_eq_true hne)
  have hnone : inUse (drop y.store).slots = fun _ => false := by
    funext j
    unfold inUse
    rw [decide_eq_false_iff_not, not_not]
    exact hfree j (Or.inl (List.mem_finRange j))
  have hcount := hkept.tracked
  dsimp only at hcount
  rw [hnone, popcount_zero] at hcount
  unfold drop at hcount
  dsimp only at hcount
  rw [hinfo] at hcount
  omega

theorem zcompTrack_init {vaddr : UInt64} (hvaddr : vaddr ≠ 0) :
    ∃ i, (zcompTrack vaddr (zcompInit true)).1 = some i := by
  have hnone : zcompFindSlot vaddr (zcompInit true) = none :=
    List.find?_eq_none.mpr fun i _ hi => (of_decide_eq_true hi).1 rfl
  cases hslot : freeSlot (zcompInit true) with
  | none =>
    have hfirst := List.find?_eq_none.mp hslot (⟨0, by decide⟩ : Fin maxPages) (List.mem_finRange _)
    exact absurd (decide_eq_true rfl) hfirst
  | some i =>
    refine ⟨i, ?_⟩
    unfold zcompTrack
    rw [if_neg hvaddr, hnone]
    dsimp only
    rw [hslot]

/-- After a drop the counts say that a page is still there. -/
theorem not_kept_dropCalls : ∃ t, Run step ⟨zcompInit true, fun _ => []⟩ [.track 4096, emptyDrop] t ∧ ¬ Kept t := by
  obtain ⟨i, hi⟩ := @zcompTrack_init 4096 (by decide)
  obtain ⟨htrack, hslot⟩ := zcompTrack_spec (counted_start (.init true)) 4096
  exact ⟨_, .cons rfl (.cons rfl (.nil _)), not_kept_drop htrack (hslot i hi).1 _⟩

end Monios.Analysis.PageStore
