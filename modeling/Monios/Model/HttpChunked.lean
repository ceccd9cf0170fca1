import Monios.Library.Logged

/-!
# Chunked bodies of HTTP

`http_decode_chunked` from `kernel/net/http.c`.  The bytes from `p` to `end` are a list.  A read is
logged with the number of bytes behind `p` at which it ends, and with `end - p`.
-/

set_option autoImplicit false

namespace Monios.Model.HttpChunked

open Monios.Library

def cr : UInt8 := 0x0D

def lf : UInt8 := 0x0A

def hexDigit (c : UInt8) : Option Nat :=
  if 0x30 ≤ c ∧ c ≤ 0x39 then some (c - 0x30).toNat
  else if 0x61 ≤ c ∧ c ≤ 0x66 then some ((c - 0x61).toNat + 10)
  else if 0x41 ≤ c ∧ c ≤ 0x46 then some ((c - 0x41).toNat + 10)
  else none

/-- The loop over the digits: no size where `return output_len` leaves the function, else
`chunk_size`, `have_digit` and the bytes from `p` on. -/
def chunkSize : List UInt8 → Nat → Bool → Logged (Nat × Nat) (Option (Nat × Bool × List UInt8))
  | [], size, haveDigit => pure (some (size, haveDigit, []))
  | c :: rest, size, haveDigit => do
    Logged.emit (1, rest.length + 1)
    match hexDigit c with
    | none => pure (some (size, haveDigit, c :: rest))
    | some digit =>
      if (0xFFFFFFFF - digit) / 16 < size then pure none
      else chunkSize rest ((size * 16 + digit) % 2 ^ 32) true

/-- `while (p < end && *p != '\r' && *p != '\n') p++` -/
def skipExtension : List UInt8 → Logged (Nat × Nat) (List UInt8)
  | [] => pure []
  | c :: rest => do
    Logged.emit (1, rest.length + 1)
    if c = cr ∨ c = lf then pure (c :: rest) else skipExtension rest

/-- `!(p + 1 >= end || p[0] != '\r' || p[1] != '\n')` -/
def atCrlf (rest : List UInt8) : Logged (Nat × Nat) Bool :=
  if rest.length ≤ 1 then pure false
  else do
    Logged.emit (1, rest.length)
    if rest.getD 0 0 ≠ cr then pure false
    else
      Logged.emit (2, rest.length)
      pure (rest.getD 1 0 == lf)

/-- The chunks from `rest` on, behind the output so far.  It fails when the rounds are used up. -/
def decodeFrom (outputSize : Nat) : Nat → List UInt8 → List UInt8 → Logged (Nat × Nat) (List UInt8)
  | 0, _, _ => Logged.fail
  | rounds + 1, rest, output =>
    if rest = [] then pure output
    else do
      match ← chunkSize rest 0 false with
      | none => pure output
      | some (size, haveDigit, rest) =>
        if !haveDigit then pure output
        else
          let rest ← skipExtension rest
          if !(← atCrlf rest) then pure output
          else
            let rest := rest.drop 2
            if size = 0 ∨ rest.length < size ∨ outputSize ≤ output.length then pure output
            else
              let copySize := min size (outputSize - output.length)
              Logged.emit (copySize, rest.length)
              let output := output ++ rest.take copySize
              let rest := rest.drop size
              if !(← atCrlf rest) then pure output
              else decodeFrom outputSize rounds (rest.drop 2) output

def httpDecodeChunked (input : List UInt8) (outputSize : Nat) : Logged (Nat × Nat) (List UInt8) :=
  decodeFrom outputSize (input.length + 1) input []

def httpDecodeChunkedBody (input : List UInt8) (outputSize : Nat) :
    Logged (Nat × Nat) (List UInt8) :=
  if outputSize = 0 then pure [] else httpDecodeChunked input outputSize

end Monios.Model.HttpChunked
