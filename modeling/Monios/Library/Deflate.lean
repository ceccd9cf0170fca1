import Monios.Library.Bytes
import Monios.Library.Huffman

/-!
# Literals and copies

The tokens of a Lempel-Ziv parse and what they expand to. A copy repeats what stands some places
before the end of the output so far, one element after the other, so that it may overlap with what
it writes.
-/

set_option autoImplicit false

namespace Monios.Library.Lz77

variable {α : Type*}

inductive Token (α : Type*)
  | literal (items : List α)
  | copy (offset count : Nat)

def copyBack (offset : Nat) : Nat → List α → List α
  | 0, out => out
  | count + 1, out => copyBack offset count (out ++ out[out.length - offset]?.toList)

def Token.expand : Token α → List α → Option (List α)
  | .literal items, out => some (out ++ items)
  | .copy offset count, out =>
    if 0 < offset ∧ offset ≤ out.length then some (copyBack offset count out) else none

def expandAll : List (Token α) → List α → Option (List α)
  | [], out => some out
  | t :: ts, out => (t.expand out).bind (expandAll ts)

theorem expandAll_append (ts us : List (Token α)) (out : List α) :
    expandAll (ts ++ us) out = (expandAll ts out).bind (expandAll us) := by
  induction ts generalizing out with
  | nil => rfl
  | cons t ts ih =>
    rw [List.cons_append, expandAll, expandAll]
    cases t.expand out with
    | none => rfl
    | some next => exact ih next

theorem copyBack_take {l : List α} {offset : Nat} (hpos : 0 < offset) (count : Nat) {p : Nat}
    (hoffset : offset ≤ p) (hend : p + count ≤ l.length)
    (hmatch : ∀ k, k < count → l[p - offset + k]? = l[p + k]?) :
    copyBack offset count (l.take p) = l.take (p + count) := by
  induction count generalizing p with
  | zero => rfl
  | succ count ih =>
    have hlen : (l.take p).length = p := by
      rw [List.length_take]
      omega
    have hnext : (l.take p)[(l.take p).length - offset]?.toList = l[p]?.toList := by
      rw [hlen, List.getElem?_take_of_lt (by omega)]
      congr 1
      exact hmatch 0 (Nat.succ_pos count)
    unfold copyBack
    rw [hnext, ← List.take_add_one, ih (by omega) (by omega)]
    · rw [Nat.add_assoc, Nat.add_comm 1]
    · intro k hk
      have hnext := hmatch (k + 1) (by omega)
      rw [show p + 1 - offset + k = p - offset + (k + 1) by omega, hnext]
      congr 1
      omega

def Covers (l : List α) (p q : Nat) (ts : List (Token α)) : Prop :=
  expandAll ts (l.take p) = some (l.take q)

namespace Covers

variable {l : List α} {p q r : Nat} {ts us : List (Token α)}

theorem nil : Covers l p p [] := rfl

theorem append (h : Covers l p q ts) (h' : Covers l q r us) : Covers l p r (ts ++ us) := by
  unfold Covers
  rw [expandAll_append, h]
  exact h'

theorem literal (hle : p ≤ q) : Covers l p q [.literal ((l.drop p).take (q - p))] := by
  have htake : l.take p ++ (l.drop p).take (q - p) = l.take q := by
    rw [← List.take_add]
    congr 1
    omega
  unfold Covers expandAll Token.expand
  rw [Option.bind_some, htake]
  rfl

theorem copy {offset count : Nat} (hpos : 0 < offset) (hoffset : offset ≤ p)
    (hend : p + count ≤ l.length) (hmatch : ∀ k, k < count → l[p - offset + k]? = l[p + k]?) :
    Covers l p (p + count) [.copy offset count] := by
  have hlen : (l.take p).length = p := by
    rw [List.length_take]
    omega
  have hexpand : (Token.copy offset count).expand (l.take p) = some (l.take (p + count)) := by
    unfold Token.expand
    dsimp only
    rw [hlen, if_pos ⟨hpos, hoffset⟩, copyBack_take hpos count hoffset hend hmatch]
  unfold Covers expandAll
  rw [hexpand]
  rfl

end Covers

theorem length_copyBack {offset : Nat} (hpos : 0 < offset) (count : Nat) {out : List α}
    (hoffset : offset ≤ out.length) :
    (copyBack offset count out).length = out.length + count := by
  induction count generalizing out with
  | zero => rfl
  | succ count ih =>
    have hlen : (out ++ out[out.length - offset]?.toList).length = out.length + 1 := by
      rw [List.length_append, List.getElem?_eq_getElem (by omega)]
      rfl
    unfold copyBack
    rw [ih (by omega), hlen]
    omega

theorem length_le_expandAll {ts : List (Token α)} {content final : List α}
    (h : expandAll ts content = some final) :
    content.length ≤ final.length := by
  induction ts generalizing content with
  | nil =>
    obtain rfl := Option.some.inj h
    exact Nat.le_refl _
  | cons t ts ih =>
    unfold expandAll at h
    cases t with
    | literal items =>
      have hle := ih h
      rw [List.length_append] at hle
      omega
    | copy offset count =>
      unfold Token.expand at h
      dsimp only at h
      split at h
      · next hback =>
        have hle := ih h
        rw [length_copyBack hback.1 count hback.2] at hle
        omega
      · cases h

end Monios.Library.Lz77

/-!
# DEFLATE streams

The format as a relation between a list of blocks, the string of bits that they are written as, and
the bytes that they stand for. An encoder is free in everything that the format leaves open: where
blocks end and of which kind they are, the padding in front of a stored block, the code lengths of a
dynamic block and how these are written down, and which of the ways to write a copy is taken.
-/

namespace Monios.Library.Deflate

open Huffman Lz77

/-! ## Literals and copies -/

def lengthBase (c : Nat) : Nat :=
  if c < 8 then 3 + c else if c = 28 then 258 else 3 + (4 + c % 4) * 2 ^ (c / 4 - 1)

def lengthExtra (c : Nat) : Nat := if c < 8 ∨ c = 28 then 0 else c / 4 - 1

def distBase (c : Nat) : Nat := if c < 4 then 1 + c else 1 + (2 + c % 2) * 2 ^ (c / 2 - 1)

def distExtra (c : Nat) : Nat := if c < 4 then 0 else c / 2 - 1

def endOfBlock : Nat := 256

/-- A byte that stands for itself, or a copy: a length code with the value of the bits that follow
it, and a distance code with the value of its bits. -/
inductive Item
  | literal (b : UInt8)
  | copy (lengthCode lengthBits distCode distBits : Nat)

def Item.token : Item → Token UInt8
  | .literal b => .literal [b]
  | .copy lengthCode lengthBits distCode distBits =>
    .copy (distBase distCode + distBits) (lengthBase lengthCode + lengthBits)

def Item.Valid (lit dist : List Nat) : Item → Prop
  | .literal b => 0 < codeLength lit b.toNat
  | .copy lengthCode lengthBits distCode distBits =>
    (lengthCode < 29 ∧ lengthBits < 2 ^ lengthExtra lengthCode ∧ 0 < codeLength lit (257 + lengthCode)) ∧
      distCode < 30 ∧ distBits < 2 ^ distExtra distCode ∧ 0 < codeLength dist distCode

def Item.bits (lit dist : List Nat) : Item → List Bool
  | .literal b => codeBits lit b.toNat
  | .copy lengthCode lengthBits distCode distBits =>
    codeBits lit (257 + lengthCode) ++ (bitsLE lengthBits (lengthExtra lengthCode) ++
      (codeBits dist distCode ++ bitsLE distBits (distExtra distCode)))

def itemsBits (lit dist : List Nat) (items : List Item) : List Bool :=
  items.flatMap (Item.bits lit dist) ++ codeBits lit endOfBlock

/-! ## Code lengths -/

inductive LengthOp
  | length (len : Nat)
  | previous (count : Nat)
  | zeros (count : Nat)
  | manyZeros (count : Nat)

def LengthOp.sym : LengthOp → Nat
  | .length len => len
  | .previous _ => 16
  | .zeros _ => 17
  | .manyZeros _ => 18

def LengthOp.Valid : LengthOp → Prop
  | .length len => len ≤ 15
  | .previous count => 3 ≤ count ∧ count ≤ 6
  | .zeros count => 3 ≤ count ∧ count ≤ 10
  | .manyZeros count => 11 ≤ count ∧ count ≤ 138

def LengthOp.extraBits : LengthOp → List Bool
  | .length _ => []
  | .previous count => bitsLE (count - 3) 2
  | .zeros count => bitsLE (count - 3) 3
  | .manyZeros count => bitsLE (count - 11) 7

def LengthOp.bits (cl : List Nat) (op : LengthOp) : List Bool := codeBits cl op.sym ++ op.extraBits

def LengthOp.expand : LengthOp → List Nat → Option (List Nat)
  | .length len, out => some (out ++ [len])
  | .previous count, out => out.getLast?.map fun len => out ++ List.replicate count len
  | .zeros count, out => some (out ++ List.replicate count 0)
  | .manyZeros count, out => some (out ++ List.replicate count 0)

def expandLengths : List LengthOp → List Nat → Option (List Nat)
  | [], out => some out
  | op :: ops, out => (op.expand out).bind (expandLengths ops)

def lengthOrder : List Nat := [16, 17, 18, 0, 8, 7, 9, 6, 10, 5, 11, 4, 12, 3, 13, 2, 14, 1, 15]

/-- The lengths of the code for steps, in the order of the symbols; those that are not written down
are zero. -/
def placed (lens : List Nat) : List Nat :=
  (List.range 19).map fun sym => lens.getD (lengthOrder.idxOf sym) 0

structure Header where
  lens : List Nat
  ops : List LengthOp
  lit : List Nat
  dist : List Nat

def Header.cl (h : Header) : List Nat := placed h.lens

structure Header.Valid (h : Header) : Prop where
  lens : 4 ≤ h.lens.length ∧ h.lens.length ≤ 19 ∧ ∀ len ∈ h.lens, len < 8
  lit : 257 ≤ h.lit.length ∧ h.lit.length ≤ 286
  dist : 1 ≤ h.dist.length ∧ h.dist.length ≤ 32
  ops : ∀ op ∈ h.ops, op.Valid ∧ 0 < codeLength h.cl op.sym
  expand : expandLengths h.ops [] = some (h.lit ++ h.dist)
  clCode : Huffman.Valid h.cl 7
  litCode : Huffman.Valid h.lit 15
  distCode : Huffman.Valid h.dist 15

def Header.bits (h : Header) : List Bool :=
  bitsLE (h.lit.length - 257) 5 ++ (bitsLE (h.dist.length - 1) 5 ++ (bitsLE (h.lens.length - 4) 4 ++
    (h.lens.flatMap (fun len => bitsLE len 3) ++ h.ops.flatMap (LengthOp.bits h.cl))))

/-! ## Blocks -/

def fixedLit : List Nat :=
  List.replicate 144 8 ++ (List.replicate 112 9 ++ (List.replicate 24 7 ++ List.replicate 8 8))

def fixedDist : List Nat := List.replicate 32 5

inductive Block
  | stored (pad : List Bool) (bytes : List UInt8)
  | fixed (items : List Item)
  | dynamic (header : Header) (items : List Item)

def Block.tokens : Block → List (Token UInt8)
  | .stored _ bytes => [.literal bytes]
  | .fixed items => items.map Item.token
  | .dynamic _ items => items.map Item.token

def Block.Valid (pos : Nat) : Block → Prop
  | .stored pad bytes => pad.length = (8 - (pos + 3) % 8) % 8 ∧ bytes.length < 2 ^ 16
  | .fixed items => ∀ item ∈ items, item.Valid fixedLit fixedDist
  | .dynamic header items =>
    header.Valid ∧ 0 < codeLength header.lit endOfBlock ∧ ∀ item ∈ items, item.Valid header.lit header.dist

def Block.body : Block → List Bool
  | .stored pad bytes =>
    bitsLE 0 2 ++ (pad ++ (bitsLE bytes.length 16 ++ (bitsLE (2 ^ 16 - 1 - bytes.length) 16 ++ bytesBits bytes)))
  | .fixed items => bitsLE 1 2 ++ itemsBits fixedLit fixedDist items
  | .dynamic header items => bitsLE 2 2 ++ (header.bits ++ itemsBits header.lit header.dist items)

def streamBits : List Block → List Bool
  | [] => []
  | block :: rest => rest.isEmpty :: (block.body ++ streamBits rest)

def ValidFrom : Nat → List Block → Prop
  | _, [] => True
  | pos, block :: rest => block.Valid pos ∧ ValidFrom (pos + 1 + block.body.length) rest

def tokens (blocks : List Block) : List (Token UInt8) := blocks.flatMap Block.tokens

/-- A stream of bytes that begins with the bits of blocks which stand for the data.  What follows
the last block does not matter. -/
structure Encodes (stream : List UInt8) (blocks : List Block) (data : List UInt8) : Prop where
  nonempty : blocks ≠ []
  valid : ValidFrom 0 blocks
  bits : ∃ rest, bytesBits stream = streamBits blocks ++ rest
  expands : expandAll (tokens blocks) [] = some data

/-! ## Streams of stored blocks -/

/-- The bytes of stored blocks that begin at a byte: a byte with the mark of the last block, the
length of the contents twice, and the contents. -/
def storedBytes : List (List UInt8) → List UInt8
  | [] => []
  | chunk :: chunks =>
    UInt8.ofNat chunks.isEmpty.toNat :: (le16 chunk.length ++ (le16 (2 ^ 16 - 1 - chunk.length) ++
      (chunk ++ storedBytes chunks)))

def alignedBlock (chunk : List UInt8) : Block := .stored (List.replicate 5 false) chunk

theorem bytesBits_le16 {v : Nat} (hv : v < 65536) : bytesBits (le16 v) = bitsLE v 16 := by
  have hlow : (UInt8.ofNat v).toNat = v % 2 ^ 8 := UInt8.toNat_ofNat'
  have hhigh : (UInt8.ofNat (v / 256)).toNat = v / 2 ^ 8 := by
    rw [UInt8.toNat_ofNat']
    omega
  unfold le16
  rw [bytesBits_cons, bytesBits_cons, bytesBits_nil, List.append_nil, hlow, hhigh, ← bitsLE_add]

theorem bytesBits_storedBytes {chunks : List (List UInt8)}
    (h : ∀ chunk ∈ chunks, chunk.length < 2 ^ 16) :
    bytesBits (storedBytes chunks) = streamBits (chunks.map alignedBlock) := by
  induction chunks with
  | nil => rfl
  | cons chunk chunks ih =>
    have hlen := h chunk List.mem_cons_self
    have hempty : (chunks.map alignedBlock).isEmpty = chunks.isEmpty := List.isEmpty_map
    have hmark : bitsLE (UInt8.ofNat chunks.isEmpty.toNat).toNat 8 =
        chunks.isEmpty :: (bitsLE 0 2 ++ List.replicate 5 false) := by
      cases chunks.isEmpty with
      | false => rfl
      | true => rfl
    unfold storedBytes
    rw [List.map_cons, streamBits, hempty, bytesBits_cons, bytesBits_append, bytesBits_append,
      bytesBits_append, hmark,
      bytesBits_le16 hlen, bytesBits_le16 (by omega), ih fun c hc => h c (List.mem_cons_of_mem chunk hc)]
    unfold alignedBlock Block.body
    rw [List.cons_append, List.append_assoc, List.append_assoc, List.append_assoc,
      List.append_assoc, List.append_assoc]

theorem validFrom_alignedBlock {chunks : List (List UInt8)}
    (h : ∀ chunk ∈ chunks, chunk.length < 2 ^ 16) {pos : Nat} (hpos : pos % 8 = 0) :
    ValidFrom pos (chunks.map alignedBlock) := by
  induction chunks generalizing pos with
  | nil => exact trivial
  | cons chunk chunks ih =>
    refine ⟨⟨?_, h chunk List.mem_cons_self⟩, ih (fun c hc => h c (List.mem_cons_of_mem chunk hc)) ?_⟩
    · rw [List.length_replicate]
      omega
    · unfold alignedBlock Block.body
      simp only [List.length_append, length_bitsLE, List.length_replicate, length_bytesBits]
      omega

theorem expandAll_alignedBlock (chunks : List (List UInt8)) (out : List UInt8) :
    expandAll (tokens (chunks.map alignedBlock)) out = some (out ++ chunks.flatten) := by
  induction chunks generalizing out with
  | nil => exact congrArg some (List.append_nil out).symm
  | cons chunk chunks ih =>
    unfold tokens at ih ⊢
    rw [List.map_cons, List.flatMap_cons, expandAll_append, List.flatten_cons, ← List.append_assoc,
      ← ih]
    rfl

theorem encodes_storedBytes {chunks : List (List UInt8)} (hne : chunks ≠ [])
    (h : ∀ chunk ∈ chunks, chunk.length < 2 ^ 16) (rest : List UInt8) :
    Encodes (storedBytes chunks ++ rest) (chunks.map alignedBlock) chunks.flatten where
  nonempty := by
    rw [Ne, List.map_eq_nil_iff]
    exact hne
  valid := validFrom_alignedBlock h rfl
  bits := ⟨bytesBits rest, by rw [bytesBits_append, bytesBits_storedBytes h]⟩
  expands := expandAll_alignedBlock chunks []

theorem length_storedBytes (chunks : List (List UInt8)) :
    (storedBytes chunks).length = 5 * chunks.length + chunks.flatten.length := by
  induction chunks with
  | nil => rfl
  | cons chunk chunks ih =>
    unfold storedBytes
    rw [List.length_cons, List.length_append, List.length_append, List.length_append, length_le16,
      length_le16, ih,
      List.length_cons, List.flatten_cons, List.length_append]
    omega

end Monios.Library.Deflate
