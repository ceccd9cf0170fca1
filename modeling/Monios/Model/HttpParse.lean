import Monios.Model.HttpChunked

/-!
# Responses of HTTP

`http_parse_response` from `kernel/net/http.c`.  The bytes from a pointer on are a list, with the
readable memory behind `end` after them; a read is logged with the number of bytes behind the
pointer at which it ends, and with `end - p`.
-/

set_option autoImplicit false

namespace Monios.Model.HttpParse

open Monios.Library Monios.Model.HttpChunked

structure HttpResponse where
  statusCode : Int := 0
  statusText : List UInt8 := []
  version : List UInt8 := []
  headers : List (List UInt8 × List UInt8) := []
  body : Option (List UInt8) := none
  contentLength : Nat := 0
  chunked : Bool := false
  keepAlive : Bool := false

def httpMaxHeaders : Nat := 32

def httpMaxHeaderName : Nat := 64

def httpMaxHeaderValue : Nat := 256

/-- `strchr` for `ch` other than NUL, with `left` bytes in front of `end`.  It fails where the
memory ends. -/
def strchr (ch : UInt8) : List UInt8 → Nat → Logged (Nat × Nat) (Option Nat)
  | [], left => do
    Logged.emit (1, left)
    Logged.fail
  | c :: mem, left => do
    Logged.emit (1, left)
    if c = 0 then pure none
    else if c = ch then pure (some 0)
    else
      let found ← strchr ch mem (left - 1)
      pure (found.map (· + 1))

def httpFindLineEnd : List UInt8 → Logged (Nat × Nat) (Option Nat)
  | [] => pure none
  | c :: rest => do
    if ← atCrlf (c :: rest) then pure (some 0)
    else
      let found ← httpFindLineEnd rest
      pure (found.map (· + 1))

/-! ## The status line -/

/-- The loop of `http_parse_status_code` over the bytes in front of `space2` -/
def statusDigits : List UInt8 → Nat → Int → Logged (Nat × Nat) Int
  | [], _, code => pure code
  | c :: line, left, code => do
    Logged.emit (1, left)
    if 0x30 ≤ c ∧ c ≤ 0x39 then statusDigits line (left - 1) ((code * 10 + (c - 0x30).toNat).bmod (2 ^ 32))
    else pure code

def httpParseStatusCode (mem : List UInt8) (left : Nat) : Logged (Nat × Nat) Int := do
  match ← strchr 0x20 mem left with
  | none => pure (-1)
  | some space1 =>
    let mem := mem.drop (space1 + 1)
    let left := left - (space1 + 1)
    match ← strchr 0x20 mem left with
    | none => pure (-1)
    | some space2 => statusDigits (mem.take space2) left 0

def parseVersion (mem : List UInt8) (left lineEnd : Nat) : Logged (Nat × Nat) (List UInt8) := do
  match ← strchr 0x20 mem left with
  | none => pure []
  | some space =>
    if lineEnd ≤ space then pure []
    else
      Logged.emit (min space 15, left)
      pure (mem.take (min space 15))

def parseStatusText (mem : List UInt8) (left lineEnd : Nat) : Logged (Nat × Nat) (List UInt8) := do
  match ← strchr 0x20 mem left with
  | none => pure []
  | some space1 =>
    match ← strchr 0x20 (mem.drop (space1 + 1)) (left - (space1 + 1)) with
    | none => pure []
    | some n =>
      let textStart := space1 + 1 + n + 1
      if lineEnd < textStart then pure []
      else
        let textLen := min (lineEnd - textStart) 63
        Logged.emit (textLen, left - textStart)
        pure ((mem.drop textStart).take textLen)

/-! ## Headers -/

def httpLowerChar (ch : UInt8) : UInt8 := if 0x41 ≤ ch ∧ ch ≤ 0x5A then ch + 32 else ch

def httpStrcasecmp : List UInt8 → List UInt8 → Int
  | a :: as, b :: bs =>
    let ca := httpLowerChar a
    let cb := httpLowerChar b
    if ca ≠ cb then ca.toInt8.toInt - cb.toInt8.toInt else httpStrcasecmp as bs
  | as, bs => (as.headD 0).toInt8.toInt - (bs.headD 0).toInt8.toInt

def httpContainsCi (needle : List UInt8) : List UInt8 → Bool
  | [] => false
  | c :: text => (needle.map httpLowerChar).isPrefixOf ((c :: text).map httpLowerChar) || httpContainsCi needle text

/-- The loop over the digits of `Content-Length` -/
def contentLengthFrom : List UInt8 → Nat → Nat
  | [], cl => cl
  | c :: v, cl =>
    if 0x30 ≤ c ∧ c ≤ 0x39 then
      let digit := (c - 0x30).toNat
      if (0xFFFFFFFF - digit) / 10 < cl then 0xFFFFFFFF else contentLengthFrom v (cl * 10 + digit)
    else cl

def HttpResponse.addHeader (response : HttpResponse) (name value : List UInt8) : HttpResponse :=
  let key := name.takeWhile (· ≠ 0)
  let text := value.takeWhile (· ≠ 0)
  let is (s : String) : Bool := httpStrcasecmp key s.toUTF8.data.toList == 0
  { response with
    headers := response.headers ++ [(name, value)]
    contentLength := if is "Content-Length" then contentLengthFrom text 0 else response.contentLength
    chunked := response.chunked || is "Transfer-Encoding" && httpContainsCi "chunked".toUTF8.data.toList text
    keepAlive := response.keepAlive || is "Connection" && httpStrcasecmp text "keep-alive".toUTF8.data.toList == 0 }

/-- `while (value_start < line_end && *value_start == ' ') value_start++`, with `behind` bytes
between `line_end` and `end` -/
def skipSpaces (behind : Nat) : List UInt8 → Logged (Nat × Nat) (List UInt8)
  | [] => pure []
  | c :: value => do
    Logged.emit (1, value.length + 1 + behind)
    if c = 0x20 then skipSpaces behind value else pure (c :: value)

def parseHeader (rest beyond : List UInt8) (lineLen : Nat) :
    Logged (Nat × Nat) (Option (List UInt8 × List UInt8)) := do
  match ← strchr 0x3A (rest ++ beyond) rest.length with
  | none => pure none
  | some colon =>
    if lineLen ≤ colon then pure none
    else
      let behind := rest.length - lineLen
      let value ← skipSpaces behind ((rest.take lineLen).drop (colon + 1))
      let nameLen := min colon (httpMaxHeaderName - 1)
      let valueLen := min value.length (httpMaxHeaderValue - 1)
      Logged.emit (nameLen, rest.length)
      Logged.emit (valueLen, value.length + behind)
      pure (some (rest.take nameLen, value.take valueLen))

def parseHeaders (beyond : List UInt8) :
    Nat → List UInt8 → HttpResponse → Logged (Nat × Nat) (List UInt8 × HttpResponse)
  | 0, _, _ => Logged.fail
  | rounds + 1, rest, response =>
    if rest = [] ∨ httpMaxHeaders ≤ response.headers.length then pure (rest, response)
    else do
      match ← httpFindLineEnd rest with
      | none => pure (rest, response)
      | some lineLen =>
        if lineLen = 0 then pure (rest.drop 2, response)
        else
          let response := match ← parseHeader rest beyond lineLen with
            | none => response
            | some (name, value) => response.addHeader name value
          parseHeaders beyond rounds (rest.drop (lineLen + 2)) response

/-- `http_parse_response` into `response`: its answer, and the response. -/
def httpParseResponse (data beyond : List UInt8) (response : HttpResponse) :
    Logged (Nat × Nat) (Bool × HttpResponse) :=
  if data = [] then pure (false, response)
  else do
    match ← httpFindLineEnd data with
    | none => pure (false, {})
    | some lineEnd =>
      let mem := data ++ beyond
      let version ← parseVersion mem data.length lineEnd
      let statusCode ← httpParseStatusCode mem data.length
      let statusText ← parseStatusText mem data.length lineEnd
      let (rest, response) ← parseHeaders beyond (data.length + 1) (data.drop (lineEnd + 2))
        { version := version, statusCode := statusCode, statusText := statusText }
      pure (decide (0 < response.statusCode), { response with body := if rest = [] then none else some rest })

end Monios.Model.HttpParse
