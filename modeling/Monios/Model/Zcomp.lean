import Mathlib.Algebra.Order.Ring.Int
import Mathlib.Data.List.FinRange

/-!
# The page compressor's codec

`zcomp_lz_encode` and `zcomp_lz_decode` of `kernel/mm/zcomp.c`.  The format:

* `0xFD`, a count, and that many bytes that stand for themselves;
* `0xFE`, the low eight and the high four bits of an offset, and a length less three: bytes that are
copied from `offset`
  places back;
* `0xFF` at the end.

Offsets into the output have 32 bits and wrap; a pointer plus a count does not.  The output buffer
is a memory, and nothing but the code's own checks keeps a write within its capacity.
-/

set_option autoImplicit false

namespace Monios.Model.Zcomp

def window : Nat := 2048

def maxMatch : Nat := 16

def minMatch : Nat := 3

def literalMax : Nat := 255

def tagLiteral : UInt8 := 0xFD

def tagMatch : UInt8 := 0xFE

def tagEnd : UInt8 := 0xFF

/-- Bytes; their number is an `uint32_t`. -/
abbrev Buffer := { bytes : List UInt8 // bytes.length < 2 ^ 32 }

abbrev Memory := Nat → UInt8

/-- The output: `o`, and the memory at `dst`. -/
structure Out where
  o : Nat
  dst : Memory

/-- `dst[o++] = b` -/
def Out.put (out : Out) (b : UInt8) : Out := ⟨(out.o + 1) % 2 ^ 32, Function.update out.dst out.o b⟩

/-- `memcpy(dst + o, bytes, count); o += count` -/
def Out.copyIn (out : Out) (bytes : List UInt8) : Out :=
  ⟨(out.o + bytes.length) % 2 ^ 32,
    fun a => if out.o ≤ a ∧ a < out.o + bytes.length then bytes.getD (a - out.o) 0 else out.dst a⟩

/-! ## Encoding -/

/-- The loop that extends a match; `n` rounds are left until `ZCOMP_MAX_MATCH`. -/
def extendMatch (src : List UInt8) (start i : Nat) : Nat → Nat → Nat
  | 0, len => len
  | n + 1, len =>
    if i + len < src.length ∧ src.getD (start + len) 0 = src.getD (i + len) 0 then extendMatch src start i n (len + 1)
    else len

def matchLen (src : List UInt8) (i off : Nat) : Nat := extendMatch src (i - off) i maxMatch 0

/-- The loop over the offsets: the length of the best match, and its offset.  `n` offsets are left.
-/
def findMatch (src : List UInt8) (i : Nat) : Nat → Nat → Nat × Nat → Nat × Nat
  | 0, _, best => best
  | n + 1, off, best =>
    if matchLen src i off > best.1 then
      if matchLen src i off = maxMatch then (matchLen src i off, off)
      else findMatch src i n (off + 1) (matchLen src i off, off)
    else findMatch src i n (off + 1) best

def bestMatch (src : List UInt8) (i : Nat) : Nat × Nat :=
  findMatch src i (if i < window then i else window) 1 (0, 0)

/-- Emit bytes that stand for themselves; an error is `return 0`. -/
def putLiteral (cap : Nat) (bytes : List UInt8) (out : Out) : Except Memory Out :=
  if (out.o + 2 + bytes.length) % 2 ^ 32 > cap then .error out.dst
  else .ok (((out.put tagLiteral).put (UInt8.ofNat bytes.length)).copyIn bytes)

def putMatch (cap off len : Nat) (out : Out) : Except Memory Out :=
  if (out.o + 4) % 2 ^ 32 > cap then .error out.dst
  else .ok ((((out.put tagMatch).put (UInt8.ofNat (off % 256))).put (UInt8.ofNat (off / 256 % 16))).put
    (UInt8.ofNat (len - minMatch)))

def putEnd (cap : Nat) (out : Out) : Except Memory Out :=
  if (out.o + 1) % 2 ^ 32 > cap then .error out.dst else .ok (out.put tagEnd)

def flushLiteral (src : List UInt8) (cap litStart i : Nat) (out : Out) : Except Memory Out :=
  if i - litStart > 0 then putLiteral cap ((src.drop litStart).take (i - litStart)) out else .ok out

/-- The loop of `zcomp_lz_encode`, and what follows it; a round goes on by one byte at least. -/
def encodeFrom (src : List UInt8) (cap : Nat) : Nat → Nat → Nat → Out → Except Memory Out
  | 0, i, litStart, out => do
      let out ← flushLiteral src cap litStart i out
      putEnd cap out
  | rounds + 1, i, litStart, out =>
    if i < src.length then
      let (len, off) := bestMatch src i
      if len ≥ minMatch then do
        let out ← flushLiteral src cap litStart i out
        let out ← putMatch cap off len out
        encodeFrom src cap rounds (i + len) (i + len) out
      else if i + 1 - litStart ≥ literalMax then do
        let out ← putLiteral cap ((src.drop litStart).take (i + 1 - litStart)) out
        encodeFrom src cap rounds (i + 1) (i + 1) out
      else encodeFrom src cap rounds (i + 1) litStart out
    else do
      let out ← flushLiteral src cap litStart i out
      putEnd cap out

/-- `zcomp_lz_encode`, with buffers: the result, and the memory at `dst`. -/
def zcompLzEncode (src : Buffer) (dst : Memory) (cap : UInt32) : Nat × Memory :=
  if src.val = [] ∨ cap < 8 then (0, dst)
  else
    match encodeFrom src.val cap.toNat src.val.length 0 0 ⟨0, dst⟩ with
    | .error dst => (0, dst)
    | .ok out => (out.o, out.dst)

/-! ## Decoding -/

def copyMatch (offset : Nat) : Nat → Out → Out
  | 0, out => out
  | len + 1, out => copyMatch offset len (out.put (out.dst (out.o - offset)))

/-- The loop of `zcomp_lz_decode`; a round takes one byte at least.  Where a check of `i` has
wrapped, `i` is not reduced and the loop ends. -/
def decodeFrom (src : List UInt8) (cap : Nat) : Nat → Nat → Out → Nat × Memory
  | 0, _, out => (out.o, out.dst)
  | rounds + 1, i, out =>
    if i < src.length then
      let tag := src.getD i 0
      let i := i + 1
      if tag = tagEnd then (out.o, out.dst)
      else if tag = tagLiteral then
        if i ≥ src.length then (0, out.dst)
        else
          let cnt := (src.getD i 0).toNat
          let i := i + 1
          if (out.o + cnt) % 2 ^ 32 > cap ∨ (i + cnt) % 2 ^ 32 > src.length then (0, out.dst)
          else decodeFrom src cap rounds (i + cnt) (out.copyIn ((src.drop i).take cnt))
      else if tag = tagMatch then
        if (i + 3) % 2 ^ 32 > src.length then (0, out.dst)
        else
          let offset := (src.getD i 0).toNat + (src.getD (i + 1) 0).toNat % 16 * 256
          let len := (src.getD (i + 2) 0).toNat + minMatch
          if offset = 0 ∨ offset > out.o ∨ (out.o + len) % 2 ^ 32 > cap then (0, out.dst)
          else decodeFrom src cap rounds (i + 3) (copyMatch offset len out)
      else (0, out.dst)
    else (out.o, out.dst)

/-- `zcomp_lz_decode`, with buffers: the result, and the memory at `dst`. -/
def zcompLzDecode (src : List UInt8) (dst : Memory) (cap : UInt32) : Nat × Memory :=
  if src = [] then (0, dst) else decodeFrom src cap.toNat src.length 0 ⟨0, dst⟩

end Monios.Model.Zcomp

/-!
# The compressed-page store

The slot table of `kernel/mm/zcomp.c` with the objects of `kernel/mm/zs.c` that hold the compressed
pages.  Whether `kmalloc` has memory, and what a block that it gives out contains, is an input of
every call that allocates; the blocks of `zs_malloc` have names, and a name is given out once.

Left out are the status texts, `last_ratio`, the sums of sizes that `zs.c` keeps, and the page that
`zcomp_track` ignores.
-/

namespace Monios.Model.Zcomp

def pageSize : Nat := 4096

def maxPages : Nat := 256

abbrev Page := { bytes : List UInt8 // bytes.length = pageSize }

def Page.buffer (page : Page) : Buffer :=
  ⟨page.val, by
    rw [page.property]
    decide⟩

/-! ## Objects -/

def zsMaxSize : Nat := 4096

/-- The part of `zs_pool_t` that is read back. -/
structure ZsPool where
  sizeClasses : List Nat

/-- The loop of `zs_init_size_classes`; `n` classes are left until `ZS_MAX_SIZE_CLASSES`. -/
def initSizeClasses : Nat → Nat → List Nat
  | 0, _ => []
  | n + 1, size => if size ≤ zsMaxSize then size :: initSizeClasses n (size * 2) else []

/-- The pool that `zs_create_pool` sets up; `ZS_MIN_SIZE` and `ZS_MAX_SIZE_CLASSES` are 16. -/
def zsCreatePool : ZsPool := ⟨initSizeClasses 16 16⟩

/-- An address of the heap, or `NULL`: `mmu.c` maps the memory below 9 GiB. -/
abbrev HeapAddress := { a : Nat // a < 9 * 2 ^ 30 }

/-- `zs_object_t`, of an object that is not freed, with the `next` pointer in the header of its
block of the heap. -/
structure ZsObject where
  size : Nat
  data : Memory
  next : HeapAddress

/-- `ZS_OBJ_MAGIC` -/
def zsObjMagic : Nat := 0x5A534F42

/-- The number that `zs_free` and `zs_malloc_usable_size` take for the magic number.  They look
`sizeof(zs_object_t)`, 32 bytes, before `data`, which is at offset 25: seven bytes before the
object, where the header of the block has the bytes 1 to 4 of its `next` pointer. -/
def ZsObject.magicSeen (obj : ZsObject) : Nat := obj.next.val / 2 ^ 8 % 2 ^ 32

/-- The magic number is never found. -/
theorem ZsObject.magicSeen_ne (obj : ZsObject) : obj.magicSeen ≠ zsObjMagic := by
  have hnext := obj.next.property
  unfold magicSeen zsObjMagic
  omega

/-! ## The table -/

/-- `zcomp_page_state_t` -/
inductive PageState where
  | free
  | active
  | compressed
  deriving DecidableEq

/-- `zcomp_slot_t` -/
structure Slot where
  vaddr : UInt64 := 0
  state : PageState := .free
  referenced : Bool := false
  zsHandle : Option Nat := none
  origSize : Nat := 0
  compSize : Nat := 0

/-- `zcomp_info_t` -/
structure Info where
  enabled : Bool := false
  poolReady : Bool := false
  trackedPages : Nat := 0
  compressedPages : Nat := 0
  compressOps : Nat := 0
  decompressOps : Nat := 0
  reclaimPasses : Nat := 0
  failures : Nat := 0
  totalOriginalBytes : Nat := 0
  totalCompressedBytes : Nat := 0

/-- The globals of `zcomp.c`, and the objects; the defaults are those of a kernel that has not
called `zcomp_init`. -/
structure Store where
  slots : Fin maxPages → Slot := fun _ => {}
  info : Info := {}
  pool : Option ZsPool := none
  objects : Nat → Option ZsObject := fun _ => none
  nextObject : Nat := 0

/-- `zcomp_init`; `zs_create_pool` may find that there are too many pools. -/
def zcompInit (created : Bool) : Store :=
  { info := { enabled := true, poolReady := created }, pool := if created then some zsCreatePool else none }

def Store.setSlot (s : Store) (i : Fin maxPages) (slot : Slot) : Store :=
  { s with slots := Function.update s.slots i slot }

/-- `g_info.failures++` -/
def Store.fail (s : Store) : Store :=
  { s with info := { s.info with failures := (s.info.failures + 1) % 2 ^ 32 } }

/-! ## The allocator -/

/-- What `kmalloc` does in one call: the contents of the scratch buffer, or `NULL`, and the `next`
pointer of the block for an object, or `NULL`. -/
structure HeapReply where
  scratch : Option Memory
  object : Option HeapAddress

/-- `zs_malloc`; `block` is what `kmalloc` gives for the object. -/
def zsMalloc (size : Nat) (block : Option HeapAddress) (s : Store) : Option Nat × Store :=
  match s.pool with
  | none => (none, s)
  | some pool =>
    if size = 0 ∨ size > zsMaxSize then (none, s)
    else
      match pool.sizeClasses.findIdx? fun cls => decide (cls ≥ size) with
      | none => (none, s)
      | some _ =>
        match block with
        | none => (none, s)
        | some next =>
          (some s.nextObject,
            { s with
              objects := Function.update s.objects s.nextObject (some ⟨size, fun _ => 0, next⟩)
              nextObject := s.nextObject + 1 })

/-- `memcpy(handle, src, len)` -/
def Store.write (s : Store) (handle : Nat) (src : Memory) (len : Nat) : Store :=
  { s with
    objects := Function.update s.objects handle
      ((s.objects handle).map fun obj => { obj with data := fun k => if k < len then src k else obj.data k }) }

-- Behind the magic number both functions check the object against its pool; they do not get there
-- (`magicSeen_ne`).
def zsFree (handle : Nat) (s : Store) : Store :=
  match s.pool, s.objects handle with
  | some _, some obj =>
    if obj.magicSeen ≠ zsObjMagic then s else { s with objects := Function.update s.objects handle none }
  | _, _ => s

def zsMallocUsableSize (handle : Nat) (s : Store) : Nat :=
  match s.objects handle with
  | some obj => if obj.magicSeen ≠ zsObjMagic then 0 else obj.size
  | none => 0

def Store.read (s : Store) (handle len : Nat) : List UInt8 :=
  (List.range len).map ((s.objects handle).elim (fun _ => 0) ZsObject.data)

/-! ## The operations -/

def zcompFindSlot (vaddr : UInt64) (s : Store) : Option (Fin maxPages) :=
  (List.finRange maxPages).find? fun i => decide ((s.slots i).state ≠ .free ∧ (s.slots i).vaddr = vaddr)

def freeSlot (s : Store) : Option (Fin maxPages) :=
  (List.finRange maxPages).find? fun i => decide ((s.slots i).state = .free)

/-- The slot that `zcomp_track` fills in. -/
def trackedSlot (vaddr : UInt64) : Slot := { vaddr := vaddr, state := .active, referenced := true }

/-- `zcomp_track`; `none` is `-1`. -/
def zcompTrack (vaddr : UInt64) (s : Store) : Option (Fin maxPages) × Store :=
  if vaddr = 0 then (none, s)
  else
    match zcompFindSlot vaddr s with
    | some i => (some i, s)
    | none =>
      match freeSlot s with
      | some i =>
        let s := s.setSlot i (trackedSlot vaddr)
        (some i, { s with info := { s.info with trackedPages := (s.info.trackedPages + 1) % 2 ^ 32 } })
      | none => (none, s.fail)

def zcompTouch (vaddr : UInt64) (s : Store) : Store :=
  match zcompFindSlot vaddr s with
  | some i => s.setSlot i { s.slots i with referenced := true }
  | none => s

/-- The end of `zcomp_compress_page`, with the compressed page in an object. -/
def keepCompressed (i : Fin maxPages) (handle compLen : Nat) (s : Store) : Store :=
  let s := ((s.slots i).zsHandle).elim s fun old => zsFree old s
  let s := s.setSlot i
    { s.slots i with
      zsHandle := some handle, origSize := pageSize, compSize := compLen, state := .compressed, referenced := false }
  { s with
    info :=
      { s.info with
        compressOps := (s.info.compressOps + 1) % 2 ^ 32
        compressedPages := (s.info.compressedPages + 1) % 2 ^ 32
        totalOriginalBytes := (s.info.totalOriginalBytes + pageSize) % 2 ^ 64
        totalCompressedBytes := (s.info.totalCompressedBytes + compLen) % 2 ^ 64 } }

/-- `zcomp_compress_page`, once the slot is known. -/
def compressSlot (i : Fin maxPages) (page : Page) (heap : HeapReply) (s : Store) : Bool × Store :=
  if (s.slots i).state = .compressed then (true, s)
  else
    match heap.scratch with
    | none => (false, s.fail)
    | some scratch =>
      let (compLen, scratch) := zcompLzEncode page.buffer scratch (UInt32.ofNat (pageSize + 64))
      if compLen = 0 ∨ compLen ≥ pageSize then (false, s.setSlot i { s.slots i with state := .active })
      else
        match zsMalloc compLen heap.object s with
        | (none, s) => (false, s.fail)
        | (some handle, s) =>
          (true, keepCompressed i handle compLen (s.write handle scratch compLen))

/-- The slot that `zcomp_compress_page` works on: a page that is not tracked is tracked. -/
def slotForPage (vaddr : UInt64) (s : Store) : Option (Fin maxPages) × Store :=
  match zcompFindSlot vaddr s with
  | some i => (some i, s)
  | none => zcompTrack vaddr s

/-- `zcomp_compress_page`; a page that is `none` is `NULL`. -/
def zcompCompressPage (vaddr : UInt64) (page : Option Page) (heap : HeapReply) (s : Store) :
    Bool × Store :=
  match page with
  | none => (false, s)
  | some page =>
    if !s.info.enabled || s.pool.isNone then (false, s)
    else
      match slotForPage vaddr s with
      | (none, s) => (false, s)
      | (some i, s) => compressSlot i page heap s

/-- The end of `zcomp_decompress_page`: the object is freed, and the slot. -/
def releaseSlot (i : Fin maxPages) (handle : Nat) (s : Store) : Store :=
  let s := zsFree handle s
  let s := s.setSlot i { s.slots i with zsHandle := none, state := .free, vaddr := 0 }
  { s with
    info :=
      { s.info with
        compressedPages := if s.info.compressedPages > 0 then s.info.compressedPages - 1 else s.info.compressedPages
        trackedPages := if s.info.trackedPages > 0 then s.info.trackedPages - 1 else 0
        decompressOps := (s.info.decompressOps + 1) % 2 ^ 32 } }

/-- `zcomp_decompress_page`: the result, and the memory at `out_buffer`; `none` is `NULL`. -/
def zcompDecompressPage (vaddr : UInt64) (outBuffer : Option Memory) (s : Store) :
    Bool × Option Memory × Store :=
  match outBuffer with
  | none => (false, none, s)
  | some out =>
    match zcompFindSlot vaddr s with
    | none => (false, some out, s)
    | some i =>
      match (s.slots i).state, (s.slots i).zsHandle with
      | .compressed, some handle =>
        let compLen := zsMallocUsableSize handle s
        if compLen = 0 then (false, some out, s)
        else
          let (outLen, out) := zcompLzDecode (s.read handle compLen) out (UInt32.ofNat pageSize)
          if outLen ≠ pageSize then (false, some out, s.fail) else (true, some out, releaseSlot i handle s)
      | _, _ => (false, some out, s)

/-- The round of `zcomp_reclaim_pass` for a slot: whether a page was compressed.  `mem` are the
resident pages. -/
def reclaimSlot (mem : UInt64 → Page) (heap : Fin maxPages → HeapReply) (i : Fin maxPages)
    (s : Store) : Bool × Store :=
  if (s.slots i).state ≠ .active then (false, s)
  else if (s.slots i).referenced then (false, s.setSlot i { s.slots i with referenced := false })
  else
    zcompCompressPage (s.slots i).vaddr (if (s.slots i).vaddr = 0 then none else some (mem (s.slots i).vaddr)) (heap i) s

/-- The loop of `zcomp_reclaim_pass`. -/
def reclaimFrom (mem : UInt64 → Page) (heap : Fin maxPages → HeapReply) :
    List (Fin maxPages) → Nat → Store → Nat × Store
  | [], compressed, s => (compressed, s)
  | i :: rest, compressed, s =>
    let (ok, s) := reclaimSlot mem heap i s
    reclaimFrom mem heap rest (if ok then compressed + 1 else compressed) s

/-- `g_info.reclaim_passes++` -/
def Store.startPass (s : Store) : Store :=
  { s with info := { s.info with reclaimPasses := (s.info.reclaimPasses + 1) % 2 ^ 32 } }

def zcompReclaimPass (mem : UInt64 → Page) (heap : Fin maxPages → HeapReply) (s : Store) :
    Nat × Store :=
  if !s.info.enabled then (0, s) else reclaimFrom mem heap (List.finRange maxPages) 0 s.startPass

/-- The round of `ZCOMP_CTL_DROP` for a slot. -/
def dropSlot (s : Store) (i : Fin maxPages) : Store :=
  let s :=
    match (s.slots i).state, (s.slots i).zsHandle with
    | .compressed, some handle => (zsFree handle s).setSlot i { s.slots i with zsHandle := none }
    | _, _ => s
  s.setSlot i { s.slots i with state := .free }

def drop (s : Store) : Store :=
  let s := (List.finRange maxPages).foldl dropSlot s
  { s with info := { s.info with compressedPages := 0 } }

def ctlStatus : UInt64 := 0

def ctlReclaim : UInt64 := 1

def ctlEnable : UInt64 := 2

def ctlDrop : UInt64 := 3

/-- `zcomp_ctl`: the result, and what `ZCOMP_CTL_STATUS` copies to the buffer of the caller. -/
def zcompCtl (cmd arg1 : UInt64) (mem : UInt64 → Page) (heap : Fin maxPages → HeapReply)
    (s : Store) :
    UInt64 × Option Info × Store :=
  if cmd = ctlStatus then (0, if arg1 = 0 then none else some s.info, s)
  else if cmd = ctlReclaim then
    let (n, s) := zcompReclaimPass mem heap s
    (UInt64.ofNat n, none, s)
  else if cmd = ctlEnable then (0, none, { s with info := { s.info with enabled := decide (arg1 ≠ 0) } })
  else if cmd = ctlDrop then (0, none, drop s)
  else (-1, none, s)

end Monios.Model.Zcomp
