import Mathlib.Algebra.Order.Ring.Int
import Mathlib.Data.List.FinRange

/-!
# Texts of IPv6 addresses

`ipv6_parse` and `ipv6_to_text` of `kernel/net/ipv6.c`.  A text is the list of the bytes before its
zero, and the buffer of `ipv6_to_text` is the text that is in it; it has room for one character less
than its size.  Null pointers and the counter of the parsed texts are left out.
-/

set_option autoImplicit false

namespace Monios.Model.Ipv6

/-- `uint8_t ip[16]` -/
abbrev Ip := Fin 16 → UInt8

def colon : UInt8 := 0x3A

/-! ## Parsing -/

/-- `ipv6_hex_value`; `none` is -1. -/
def ipv6HexValue (ch : UInt8) : Option UInt32 :=
  if 0x30 ≤ ch ∧ ch ≤ 0x39 then some (ch - 0x30).toUInt32
  else if 0x61 ≤ ch ∧ ch ≤ 0x66 then some (ch - 0x61 + 10).toUInt32
  else if 0x41 ≤ ch ∧ ch ≤ 0x46 then some (ch - 0x41 + 10).toUInt32
  else none

/-- The loop of `ipv6_parse` over the digits of a group: the value, the number of the digits, and
what is left of the text. -/
def ipv6Digits : List UInt8 → UInt32 → Nat → Option (UInt32 × Nat × List UInt8)
  | [], value, digits => some (value, digits, [])
  | ch :: p, value, digits =>
    if ch = colon then some (value, digits, ch :: p)
    else
      match ipv6HexValue ch with
      | none => none
      | some hex => if digits ≥ 4 then none else ipv6Digits p (value <<< 4 ||| hex) (digits + 1)

/-- The loop of `ipv6_parse` over the groups, of which there is room for so many: the words that
were read and `compress_at`, with `none` for -1. -/
def ipv6Groups : Nat → List UInt8 → List UInt16 → Option Nat → Option (List UInt16 × Option Nat)
  | _, [], words, compressAt => some (words, compressAt)
  | 0, _ :: _, _, _ => none
  | room + 1, ch :: p, words, compressAt =>
    match ipv6Digits (ch :: p) 0 0 with
    | none => none
    | some (value, digits, p) =>
      if digits = 0 then none
      else
        let words := words ++ [value.toUInt16]
        match p with
        | [] => some (words, compressAt)
        | [_] => none
        | _ :: ch :: p =>
          if ch = colon then
            if compressAt.isSome then none else ipv6Groups room p words (some words.length)
          else ipv6Groups room (ch :: p) words compressAt

/-- `words[i + zeros] = words[i]` for the `i` below the third argument, downwards to `compress_at`.
-/
def moveWords (compressAt zeros : Nat) : Nat → List UInt16 → List UInt16
  | 0, words => words
  | i + 1, words =>
    if compressAt ≤ i then moveWords compressAt zeros i (words.set (i + zeros) (words.getD i 0)) else words

/-- `words[i] = 0` for so many `i` from `compress_at` on. -/
def clearWords : Nat → Nat → List UInt16 → List UInt16
  | _, 0, words => words
  | i, zeros + 1, words => clearWords (i + 1) zeros (words.set i 0)

/-- What `ipv6_parse` makes of the groups: the eight words, if it does not return false. -/
def ipv6Expand (words : List UInt16) : Option Nat → Option (List UInt16)
  | none => if words.length ≠ 8 then none else some words
  | some compressAt =>
    if words.length > 8 then none
    else
      let zeros := 8 - words.length
      some (clearWords compressAt zeros
        (moveWords compressAt zeros words.length (words ++ List.replicate (8 - words.length) 0)))

def ipv6Bytes (words : List UInt16) : Ip := fun i =>
  if i.val % 2 = 0 then (words.getD (i.val / 2) 0 >>> 8).toUInt8 else (words.getD (i.val / 2) 0).toUInt8

/-- The part of `ipv6_parse` that reads the text: the words, and `compress_at`. -/
def ipv6ReadGroups (text : List UInt8) : Option (List UInt16 × Option Nat) :=
  match text with
  | [] => none
  | [ch] => if ch = colon then none else ipv6Groups 8 [ch] [] none
  | ch :: ch' :: p =>
    if ch = colon ∧ ch' = colon then ipv6Groups 8 p [] (some 0)
    else if ch = colon then none
    else ipv6Groups 8 (ch :: ch' :: p) [] none

/-- `ipv6_parse`; `none` is false. -/
def ipv6Parse (text : List UInt8) : Option Ip :=
  match ipv6ReadGroups text with
  | none => none
  | some (words, compressAt) => (ipv6Expand words compressAt).map ipv6Bytes

/-! ## Printing -/

def ipv6AppendChar (outSize : Nat) (out : List UInt8) (ch : UInt8) : List UInt8 :=
  if out.length + 1 < outSize then out ++ [ch] else out

/-- `hex[nibble]` -/
def hexChar (nibble : UInt16) : UInt8 :=
  if nibble < 10 then 0x30 + nibble.toUInt8 else 0x61 + (nibble.toUInt8 - 10)

/-- The rounds of `ipv6_append_hex`, over the shifts that are left and `started`. -/
def ipv6AppendDigits (outSize : Nat) (value : UInt16) : List UInt16 → Bool → List UInt8 → List UInt8
  | [], _, out => out
  | shift :: shifts, started, out =>
    let nibble := value >>> shift &&& 0xF
    if nibble ≠ 0 ∨ started ∨ shift = 0 then
      ipv6AppendDigits outSize value shifts true (ipv6AppendChar outSize out (hexChar nibble))
    else ipv6AppendDigits outSize value shifts started out

def ipv6AppendHex (outSize : Nat) (out : List UInt8) (value : UInt16) : List UInt8 :=
  ipv6AppendDigits outSize value [12, 8, 4, 0] false out

def ipv6Words (ip : Ip) : List UInt16 :=
  (List.finRange 8).map fun i => (ip ⟨2 * i.val, by omega⟩).toUInt16 <<< 8 ||| (ip ⟨2 * i.val + 1, by omega⟩).toUInt16

def zeroRun (words : List UInt16) (i : Nat) : Nat := ((words.drop i).takeWhile (· == 0)).length

/-- `best_start` and `best_len`, with `none` for `best_start == -1` -/
abbrev Best := Option (Nat × Nat)

def Best.len : Best → Nat
  | none => 0
  | some (_, len) => len

/-- The loop of `ipv6_to_text` that looks for the longest run of zeros; the rounds are an upper
bound of those it makes. -/
def bestRun (words : List UInt16) : Nat → Nat → Best → Best
  | 0, _, best => best
  | rounds + 1, i, best =>
    if i < 8 then
      let len := zeroRun words i
      let best := if len ≥ 2 ∧ len > best.len then some (i, len) else best
      bestRun words rounds (if len > 0 then i + len else i + 1) best
    else best

/-- The loop of `ipv6_to_text` that writes the text; the rounds are an upper bound of those it
makes. -/
def ipv6Emit (outSize : Nat) (words : List UInt16) (best : Best) :
    Nat → Nat → List UInt8 → List UInt8
  | 0, _, out => out
  | rounds + 1, i, out =>
    if i < 8 then
      match best with
      | none =>
        let out := if i > 0 then ipv6AppendChar outSize out colon else out
        ipv6Emit outSize words best rounds (i + 1) (ipv6AppendHex outSize out (words.getD i 0))
      | some (start, len) =>
        if i = start then
          ipv6Emit outSize words best rounds (i + len) (ipv6AppendChar outSize (ipv6AppendChar outSize out colon) colon)
        else
          let out := if i > 0 ∧ i ≠ start + len then ipv6AppendChar outSize out colon else out
          ipv6Emit outSize words best rounds (i + 1) (ipv6AppendHex outSize out (words.getD i 0))
    else out

/-- `ipv6_to_text`, for a buffer that is not empty -/
def ipv6ToText (ip : Ip) (outSize : Nat) : List UInt8 :=
  let words := ipv6Words ip
  ipv6Emit outSize words (bestRun words 8 0 none) 8 0 []

end Monios.Model.Ipv6
