import Monios.Library.Traced
import Monios.Model.Inflate

/-!
# Inflate with its accesses

The decoder of `lib/zip.c` once more, as a computation that logs what it reads and writes: the bytes
of the input, the symbols of the code tables and the bytes of the output.  It works on the bit
reader and the output of the other model.

The loops that the source writes without a bound (`while (i < total)` and the two `for (;;)`) run
for a number of rounds that is a parameter here; a decoder that needs more is `unfinished`.
-/

set_option autoImplicit false

namespace Monios.Model.InflateAccess

open Monios.Library Monios.Library.Traced Monios.Model.Zcomp
open Monios.Model.Inflate (Br Huff countLengths offset fixedLitlenLengths lenBase lenExtra distBase distExtra clOrder toInt)

inductive Access
  /-- `src[i]` is read -/
  | input (i : Nat)
  /-- `br_read` finds no byte that is left -/
  | exhausted
  /-- `sym[i]` of a table is written or read -/
  | table (i : Nat)
  /-- `out[i]` is read for a match -/
  | copied (i : Nat)
  /-- `out[i]` is written -/
  | output (i : Nat)
  /-- a stored block, whose lengths are at `pos` -/
  | header (pos : Nat)
  /-- `len` bytes are stored at `pos`, and there is room for `room` -/
  | contents (pos len room : Nat)
  deriving DecidableEq

structure State where
  br : Br
  out : Out

abbrev Decode (α : Type) : Type := Traced State Access α

inductive Outcome
  /-- `return 0` -/
  | done
  /-- `return -1` -/
  | failed
  | unfinished
  deriving DecidableEq

/-! ## The bit reader -/

/-- The loop of `br_read`: whether there were enough bytes. -/
def brFill (want : Nat) : Nat → Decode Bool
  | 0 => pure true
  | rounds + 1 => do
      let br ← reads State.br
      if br.bl < want then
        if br.pos ≥ br.buf.length then do
          emit .exhausted
          modifies fun s => { s with br := { s.br with err := true } }
          pure false
        else do
          emit (.input br.pos)
          modifies fun s =>
            { s with
              br := { s.br with
                bb := (s.br.bb ||| byteAt s.br.buf s.br.pos <<< s.br.bl) % 2 ^ 32
                pos := s.br.pos + 1
                bl := s.br.bl + 8 } }
          brFill want rounds
      else pure true

def brRead (n : Nat) : Decode Nat := do
  let ok ← brFill n n
  if ok then do
    let br ← reads State.br
    modifies fun s => { s with br := { s.br with bb := s.br.bb >>> n, bl := s.br.bl - n } }
    pure (br.bb % 2 ^ n)
  else pure 0

def brAlign : Decode Unit := modifies fun s => { s with br := { s.br with bb := 0, bl := 0 } }

/-! ## Code tables -/

/-- The last loop of `huff_build`: the offsets, and the symbols; `i` symbols are done. -/
def placeSymbols : List Nat → Nat → List Nat × List Nat → Decode (List Nat × List Nat)
  | [], _, state => pure state
  | len :: lengths, i, (off, sym) =>
    if len ≠ 0 then do
      emit (.table (off.getD len 0))
      placeSymbols lengths (i + 1) (off.set len (off.getD len 0 + 1), sym.set (off.getD len 0) i)
    else placeSymbols lengths (i + 1) (off, sym)

def huffBuild (lengths : List Nat) : Decode Huff := do
  let count := countLengths lengths
  let placed ← placeSymbols lengths 0 ((List.range 16).map (offset count), List.replicate 288 0)
  pure ⟨count, placed.2⟩

/-- The loop of `huff_decode` from the length `len` on; `none` is `-1`. -/
def huffFrom (h : Huff) : Nat → Nat → Nat → Nat → Nat → Decode (Option Nat)
  | 0, _, _, _, _ => do
      modifies fun s => { s with br := { s.br with err := true } }
      pure none
  | rounds + 1, len, code, first, index => do
      let bit ← brRead 1
      let code := code <<< 1 ||| bit
      let cnt := h.count.getD len 0
      if first ≤ code ∧ code - first < cnt then do
        emit (.table (index + (code - first)))
        pure (some (h.sym.getD (index + (code - first)) 0))
      else huffFrom h rounds (len + 1) code ((first + cnt) <<< 1) (index + cnt)

def huffDecode (h : Huff) : Decode (Option Nat) := huffFrom h 15 1 0 0 0

/-! ## The lengths of a dynamic block -/

/-- The loop that reads the lengths of the code for lengths; `i` of them are read. -/
def readClLens : Nat → Nat → List Nat → Decode (List Nat)
  | 0, _, clLen => pure clLen
  | n + 1, i, clLen => do
      let len ← brRead 3
      readClLens n (i + 1) (clLen.set (clOrder.getD i 0) len)

/-- The lengths that a symbol adds, and the new `prev`. -/
def addLengths (sym prev : Nat) : Decode (List Nat × Nat) :=
  if sym < 16 then pure ([sym], sym)
  else if sym = 16 then do
    let extra ← brRead 2
    pure (List.replicate (3 + extra) prev, prev)
  else if sym = 17 then do
    let extra ← brRead 3
    pure (List.replicate (3 + extra) 0, 0)
  else do
    let extra ← brRead 7
    pure (List.replicate (11 + extra) 0, 0)

/-- The loop of `read_dynamic_lengths`; `out` are the lengths so far. -/
def readLengthsFrom (h : Huff) (total : Nat) : Nat → List Nat → Nat → Decode (Outcome × List Nat)
  | 0, out, _ => pure (.unfinished, out)
  | rounds + 1, out, prev =>
    if out.length < total then do
      let sym ← huffDecode h
      match sym with
      | none => pure (.failed, out)
      | some sym => do
          let more ← addLengths sym prev
          readLengthsFrom h total rounds (out ++ more.1.take (total - out.length)) more.2
    else pure (.done, out)

def readDynamicLengths (limit total : Nat) : Decode (Outcome × List Nat) := do
  let hclen ← brRead 4
  let clLen ← readClLens (hclen + 4) 0 (List.replicate 19 0)
  let h ← huffBuild clLen
  readLengthsFrom h total limit [] 0

/-! ## Blocks -/

def copyLoop (distance cap : Nat) : Nat → Decode Bool
  | 0 => pure true
  | length + 1 => do
      let out ← reads State.out
      if out.o ≥ cap then pure false
      else do
        emit (.copied (out.o - distance))
        emit (.output out.o)
        modifies fun s => { s with out := s.out.put (s.out.dst (s.out.o - distance)) }
        copyLoop distance cap length

/-- What `decode_block_stream` does with a length symbol. -/
def decodeMatch (dist : Huff) (cap sym : Nat) : Decode Bool :=
  let s := sym - 257
  if s ≥ 29 then pure false
  else do
    let extra ← brRead (lenExtra.getD s 0)
    let length := lenBase.getD s 0 + extra
    let dsym ← huffDecode dist
    match dsym with
    | none => pure false
    | some dsym =>
      if dsym ≥ 30 then pure false
      else do
        let extra ← brRead (distExtra.getD dsym 0)
        let distance := distBase.getD dsym 0 + extra
        let out ← reads State.out
        if distance > out.o then pure false else copyLoop distance cap length

/-- What `decode_block_stream` does with a symbol other than 256. -/
def decodeSymbol (dist : Huff) (cap sym : Nat) : Decode Bool :=
  if sym < 256 then do
    let out ← reads State.out
    if out.o ≥ cap then pure false
    else do
      emit (.output out.o)
      modifies fun s => { s with out := s.out.put (UInt8.ofNat sym) }
      pure true
  else decodeMatch dist cap sym

def decodeBlockStream (lit dist : Huff) (cap : Nat) : Nat → Decode Outcome
  | 0 => pure .unfinished
  | rounds + 1 => do
      let sym ← huffDecode lit
      match sym with
      | none => pure .failed
      | some sym =>
        if sym = 256 then pure .done
        else do
          let ok ← decodeSymbol dist cap sym
          if ok then decodeBlockStream lit dist cap rounds else pure .failed

def copyStored : Nat → Decode Unit
  | 0 => pure ()
  | len + 1 => do
      let s ← reads id
      emit (.input s.br.pos)
      emit (.output s.out.o)
      modifies fun s =>
        { br := { s.br with pos := (s.br.pos + 1) % 2 ^ 32 }, out := s.out.put (UInt8.ofNat (byteAt s.br.buf s.br.pos)) }
      copyStored len

def rd16 (o : Nat) : Decode Nat := do
  let br ← reads State.br
  emit (.input o)
  emit (.input (o + 1))
  pure (readU16 br.buf o)

def storedContents (cap len nlen : Nat) : Decode Outcome :=
  if len + nlen ≠ 0xFFFF then pure .failed
  else do
    let s ← reads id
    let room := (cap + 2 ^ 32 - s.out.o) % 2 ^ 32
    emit (.contents s.br.pos len room)
    if (s.br.pos + len) % 2 ^ 32 > s.br.buf.length then pure .failed
    else if len > room then pure .failed
    else do
      copyStored len
      pure .done

def storedBlock (cap : Nat) : Decode Outcome := do
  brAlign
  let br ← reads State.br
  emit (.header br.pos)
  if (br.pos + 4) % 2 ^ 32 > br.buf.length then pure .failed
  else do
    let len ← rd16 br.pos
    let nlen ← rd16 (br.pos + 2)
    modifies fun s => { s with br := { s.br with pos := (s.br.pos + 4) % 2 ^ 32 } }
    storedContents cap len nlen

def fixedBlock (limit cap : Nat) : Decode Outcome := do
  let lit ← huffBuild fixedLitlenLengths
  let dist ← huffBuild (List.replicate 30 5)
  decodeBlockStream lit dist cap limit

def dynamicBlock (limit cap : Nat) : Decode Outcome := do
  let hlit ← brRead 5
  let hdist ← brRead 5
  let hlit := hlit + 257
  let hdist := hdist + 1
  if hlit + hdist > 288 + 32 then pure .failed
  else do
    let lengths ← readDynamicLengths limit (hlit + hdist)
    match lengths.1 with
    | .done => do
        let lit ← huffBuild (lengths.2.take hlit)
        let dist ← huffBuild ((lengths.2.drop hlit).take hdist)
        decodeBlockStream lit dist cap limit
    | outcome => pure outcome

/-- A block of the type `btype`. -/
def inflateBlock (limit btype cap : Nat) : Decode Outcome :=
  match btype with
  | 0 => storedBlock cap
  | 1 => fixedBlock limit cap
  | 2 => dynamicBlock limit cap
  | _ => pure .failed

/-- The loop of `inflate_raw`, and the check of `br.err` behind it. -/
def inflateFrom (limit cap : Nat) : Nat → Decode Outcome
  | 0 => pure .unfinished
  | rounds + 1 => do
      let bfinal ← brRead 1
      let btype ← brRead 2
      let outcome ← inflateBlock limit btype cap
      match outcome with
      | .done =>
        if bfinal ≠ 0 then do
          let br ← reads State.br
          if br.err then pure .failed else pure .done
        else inflateFrom limit cap rounds
      | outcome => pure outcome

def start (src : Buffer) (out : Zcomp.Memory) : State := ⟨⟨src.val, 0, 0, 0, false⟩, ⟨0, out⟩⟩

/-- `inflate_raw`, in loops of at most `limit` rounds: the result when it returns. -/
def inflateRaw (limit : Nat) (src : Buffer) (out : Zcomp.Memory) (outcap : UInt32) : Option Int :=
  match (inflateFrom limit outcap.toNat limit).result (start src out) with
  | .unfinished => none
  | .failed => some (-1)
  | .done => some (toInt ((inflateFrom limit outcap.toNat limit).state (start src out)).out.o)

/-- The memory at `out` behind it. -/
def inflateMemory (limit : Nat) (src : Buffer) (out : Zcomp.Memory) (outcap : UInt32) :
    Zcomp.Memory :=
  ((inflateFrom limit outcap.toNat limit).state (start src out)).out.dst

/-- The accesses of `inflate_raw`, in loops of at most `limit` rounds. -/
def inflateLog (limit : Nat) (src : Buffer) (out : Zcomp.Memory) (outcap : UInt32) : List Access :=
  (inflateFrom limit outcap.toNat limit).log (start src out)

end Monios.Model.InflateAccess
