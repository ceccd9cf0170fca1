import Mathlib.Algebra.Order.Ring.Int
import Mathlib.Data.List.FinRange

/-!
# Answers of name servers

`dns_handle_udp` of `kernel/net/dns.c`, which a datagram for the port of the resolver goes to, with
`dns_decode_name`.

A datagram is the list of its bytes, fewer than 65536.  Every read of it is written as one that can
fail, and a function is `none` when it reads a byte outside or does not come to an end.  Positions
are numbers: the checks before each addition keep them within the datagram.  A call with a null
pointer does nothing and is left out, as are the cache and what sends queries.
-/

set_option autoImplicit false

namespace Monios.Model.Dns

def dnsPort : Nat := 53

/-- `DNS_TYPE_A` and `DNS_TYPE_CNAME` -/
def dnsTypeA : Nat := 1

def dnsTypeCname : Nat := 5

def dnsClassIn : Nat := 1

def dnsMaxName : Nat := 64

structure Resolver where
  waiting : Bool := false
  answerValid : Bool := false
  queryId : Nat := 0
  queryName : List UInt8 := []
  answerIp : List UInt8 := [0, 0, 0, 0]
  answerTtl : Nat := 0
  serverIp : List UInt8 := [0, 0, 0, 0]
  cname : List UInt8 := []
  status : String := "dns: ready"

def dnsGet16 (d : List UInt8) (pos : Nat) : Option Nat := do
  let high ← d[pos]?
  let low ← d[pos + 1]?
  some (high.toNat * 256 + low.toNat)

def dnsGet32 (d : List UInt8) (pos : Nat) : Option Nat := do
  let high ← dnsGet16 d pos
  let low ← dnsGet16 d (pos + 2)
  some (high * 65536 + low)

/-- `memcpy` out of the datagram -/
def dnsCopy (d : List UInt8) (pos : Nat) : Nat → Option (List UInt8)
  | 0 => some []
  | n + 1 => do
      let b ← d[pos]?
      let rest ← dnsCopy d (pos + 1) n
      some (b :: rest)

def dnsLower (ch : UInt8) : UInt8 := if 0x41 ≤ ch ∧ ch ≤ 0x5A then ch - 0x41 + 0x61 else ch

/-! ## Names -/

/-- The loop of `dns_decode_name` over a label; `some none` is a label with a zero or a dot in it.
-/
def dnsCopyLabel (d : List UInt8) : Nat → Nat → List UInt8 → Option (Option (List UInt8))
  | 0, _, out => some (some out)
  | n + 1, cursor, out => do
      let b ← d[cursor]?
      if b = 0 ∨ b = 0x2E then some none else dnsCopyLabel d n (cursor + 1) (out ++ [dnsLower b])

/-- The loop of `dns_decode_name`: the name and the position behind it, `some none` when it is
refused.  A jump has been taken when there is a position `behind` already. -/
def dnsDecodeFrom (d : List UInt8) (outMax : Nat) :
    Nat → Nat → List UInt8 → Nat → Option Nat → Option (Option (List UInt8 × Nat))
  | 0, _, _, _, _ => none
  | rounds + 1, cursor, out, hops, behind =>
    if cursor < d.length then do
      let len ← d[cursor]?
      let cursor := cursor + 1
      if len = 0 then some (some (out, behind.getD cursor))
      else if len &&& 0xC0 = 0xC0 then
        if cursor ≥ d.length ∨ hops + 1 > 16 then some none
        else do
          let low ← d[cursor]?
          let target := (len &&& 0x3F).toNat * 256 + low.toNat
          if target ≥ d.length then some none
          else dnsDecodeFrom d outMax rounds target out (hops + 1) (some (behind.getD (cursor + 1)))
      else if len > 63 ∨ cursor + len.toNat > d.length then some none
      else if out.length + (if out.length > 0 then 1 else 0) + len.toNat ≥ outMax then some none
      else do
        match ← dnsCopyLabel d len.toNat cursor (if out.length > 0 then out ++ [0x2E] else out) with
        | none => some none
        | some out => dnsDecodeFrom d outMax rounds (cursor + len.toNat) out hops behind
    else some none

/-- `dns_decode_name`; between two of the at most 16 jumps the position only grows. -/
def dnsDecodeName (d : List UInt8) (pos : Nat) : Option (Option (List UInt8 × Nat)) :=
  dnsDecodeFrom d dnsMaxName (17 * (d.length + 1)) pos [] 0 none

/-! ## Datagrams -/

inductive Questions
  | malformed
  | mismatch
  | answered (pos : Nat)

/-- The loop of `dns_handle_udp` over the questions. -/
def dnsQuestions (d desired : List UInt8) : Nat → Nat → Option Questions
  | 0, pos => some (.answered pos)
  | n + 1, pos => do
      match ← dnsDecodeName d pos with
      | none => some .malformed
      | some (qname, pos) =>
        if pos + 4 > d.length then some .malformed
        else do
          let type ← dnsGet16 d pos
          let klass ← dnsGet16 d (pos + 2)
          if qname ≠ desired ∨ type ≠ dnsTypeA ∨ klass ≠ dnsClassIn then some .mismatch
          else dnsQuestions d desired n (pos + 4)

/-- The end of `dns_handle_udp`. -/
def dnsFinish (s : Resolver) : Resolver :=
  if s.cname ≠ [] then { s with waiting := false, answerValid := true }
  else { s with waiting := false, status := "dns: no A record" }

/-- The loop of `dns_handle_udp` over the answers, with what comes after it. -/
def dnsAnswers (d : List UInt8) : Nat → Nat → List UInt8 → Resolver → Option Resolver
  | 0, _, _, s => some (dnsFinish s)
  | n + 1, pos, desired, s => do
      match ← dnsDecodeName d pos with
      | none => some (dnsFinish s)
      | some (owner, pos) =>
        if pos + 10 > d.length then some (dnsFinish s)
        else do
          let type ← dnsGet16 d pos
          let klass ← dnsGet16 d (pos + 2)
          let ttl ← dnsGet32 d (pos + 4)
          let rdlen ← dnsGet16 d (pos + 8)
          let pos := pos + 10
          if pos + rdlen > d.length then some (dnsFinish s)
          else if klass ≠ dnsClassIn then dnsAnswers d n (pos + rdlen) desired s
          else if type = dnsTypeA ∧ rdlen = 4 ∧ owner = desired then do
            let ip ← dnsCopy d pos 4
            some { s with answerIp := ip, answerTtl := ttl, cname := [], answerValid := true, waiting := false }
          else if type = dnsTypeCname ∧ owner = desired then do
            match ← dnsDecodeName d pos with
            | none => dnsAnswers d n (pos + rdlen) desired s
            | some (cname, rp) =>
              if rp = pos + rdlen ∧ cname ≠ [] then
                dnsAnswers d n (pos + rdlen) cname { s with cname := cname.take (dnsMaxName - 1) }
              else dnsAnswers d n (pos + rdlen) desired s
          else dnsAnswers d n (pos + rdlen) desired s

def dnsHandleUdp (s : Resolver) (srcIp : List UInt8) (srcPort : Nat) (d : List UInt8) :
    Option Resolver :=
  if !s.waiting ∨ srcPort ≠ dnsPort ∨ d.length < 12 then some s
  else if srcIp ≠ s.serverIp then some s
  else do
    let id ← dnsGet16 d 0
    if id ≠ s.queryId then some s
    else do
      let flags ← dnsGet16 d 2
      if flags &&& 0x8000 = 0 ∨ flags &&& 0x7A0F ≠ 0 then
        some { s with waiting := false, status := "dns: response error" }
      else do
        let qdcount ← dnsGet16 d 4
        let ancount ← dnsGet16 d 6
        if qdcount ≠ 1 then some { s with waiting := false }
        else do
          let desired := s.queryName.map dnsLower
          match ← dnsQuestions d desired qdcount 12 with
          | .malformed => some { s with waiting := false }
          | .mismatch => some { s with waiting := false, status := "dns: question mismatch" }
          | .answered pos => dnsAnswers d ancount pos desired s

end Monios.Model.Dns

/-!
# Names of the resolver

`dns_valid_name` and `dns_encode_name` of `kernel/net/dns.c`, and `dns_decode_name` with the writes
to its output.

A name is the list of the bytes before its zero.  Reads and writes are written as ones that can
fail: a function is `none` when it reads or writes outside of its buffers or does not come to an
end.  A null pointer as a name is left out.
-/

namespace Monios.Model.Dns

/-! ## Valid names -/

def dnsLabelChar (ch : UInt8) : Bool :=
  (0x61 ≤ ch && ch ≤ 0x7A) || (0x41 ≤ ch && ch ≤ 0x5A) || (0x30 ≤ ch && ch ≤ 0x39) || ch == 0x2D

/-- The loop of `dns_valid_name`, over `label_len` and `total_len`. -/
def dnsValidFrom : List UInt8 → Nat → Nat → Bool
  | [], labelLen, _ => decide (0 < labelLen ∧ labelLen ≤ 63)
  | ch :: name, labelLen, totalLen =>
    if totalLen + 1 ≥ dnsMaxName then false
    else if ch = 0x2E then if labelLen = 0 ∨ labelLen > 63 then false else dnsValidFrom name 0 (totalLen + 1)
    else if !dnsLabelChar ch then false
    else dnsValidFrom name (labelLen + 1) (totalLen + 1)

def dnsValidName (name : List UInt8) : Bool := !name.isEmpty && dnsValidFrom name 0 0

/-! ## Encoding -/

/-- `packet[(*pos)++] = b` for each of the bytes -/
def dnsPut : List UInt8 → List UInt8 → Nat → Option (List UInt8 × Nat)
  | [], packet, pos => some (packet, pos)
  | b :: bytes, packet, pos =>
    if pos < packet.length then dnsPut bytes (packet.set pos b) (pos + 1) else none

/-- The loop of `dns_encode_name` over what stands between the dots; `some none` says that it has
returned false. -/
def dnsEncodeFrom (max : Nat) :
    List (List UInt8) → List UInt8 → Nat → Option (Option (List UInt8 × Nat))
  | [], packet, pos => if pos ≥ max then some none else (dnsPut [0] packet pos).map some
  | label :: labels, packet, pos =>
    if label.length = 0 ∨ label.length > 63 ∨ pos + label.length + 1 ≥ max then some none
    else do
      let (packet, pos) ← dnsPut (UInt8.ofNat label.length :: label) packet pos
      dnsEncodeFrom max labels packet pos

/-- `dns_encode_name`: the packet, and the position behind the name -/
def dnsEncodeName (packet : List UInt8) (pos max : Nat) (name : List UInt8) :
    Option (Option (List UInt8 × Nat)) :=
  dnsEncodeFrom max (name.splitOn 0x2E) packet pos

/-! ## Decoding -/

/-- `out[olen++] = ch` for a buffer of `outMax` bytes -/
def dnsStore (outMax : Nat) (out : List UInt8) (ch : UInt8) : Option (List UInt8) :=
  if out.length < outMax then some (out ++ [ch]) else none

def dnsStoreDot (outMax : Nat) (out : List UInt8) : Option (List UInt8) :=
  if out.length > 0 then dnsStore outMax out 0x2E else some out

/-- The loop of `dns_decode_name` over a label; `some none` is a label with a zero or a dot in it.
-/
def dnsStoreLabel (d : List UInt8) (outMax : Nat) :
    Nat → Nat → List UInt8 → Option (Option (List UInt8))
  | 0, _, out => some (some out)
  | n + 1, cursor, out => do
      let b ← d[cursor]?
      if b = 0 ∨ b = 0x2E then some none
      else do
        let out ← dnsStore outMax out (dnsLower b)
        dnsStoreLabel d outMax n (cursor + 1) out

/-- The loop of `dns_decode_name`, as in `dnsDecodeFrom`. -/
def dnsDecodeInto (d : List UInt8) (outMax : Nat) :
    Nat → Nat → List UInt8 → Nat → Option Nat → Option (Option (List UInt8 × Nat))
  | 0, _, _, _, _ => none
  | rounds + 1, cursor, out, hops, behind =>
    if cursor < d.length then do
      let len ← d[cursor]?
      let cursor := cursor + 1
      if len = 0 then do
        let _ ← dnsStore outMax out 0
        some (some (out, behind.getD cursor))
      else if len &&& 0xC0 = 0xC0 then
        if cursor ≥ d.length ∨ hops + 1 > 16 then some none
        else do
          let low ← d[cursor]?
          let target := (len &&& 0x3F).toNat * 256 + low.toNat
          if target ≥ d.length then some none
          else dnsDecodeInto d outMax rounds target out (hops + 1) (some (behind.getD (cursor + 1)))
      else if len > 63 ∨ cursor + len.toNat > d.length then some none
      else if out.length + (if out.length > 0 then 1 else 0) + len.toNat ≥ outMax then some none
      else do
        let out ← dnsStoreDot outMax out
        match ← dnsStoreLabel d outMax len.toNat cursor out with
        | none => some none
        | some out => dnsDecodeInto d outMax rounds (cursor + len.toNat) out hops behind
    else some none

/-- `dns_decode_name` with an output of `outMax` bytes; the first write is `out[0] = '\0'`. -/
def dnsDecodeNameInto (d : List UInt8) (pos outMax : Nat) : Option (Option (List UInt8 × Nat)) := do
  let _ ← dnsStore outMax [] 0
  dnsDecodeInto d outMax (17 * (d.length + 1)) pos [] 0 none

end Monios.Model.Dns

/-!
# The cache of the resolver

`dns_cache_lookup` and `dns_cache_insert` of `kernel/net/dns.c`.  The only caller has asked
`dns_valid_name`, so that every name fits into the field for it; ticks are numbers of 64 bits.
-/

namespace Monios.Model.Dns

/-- `dns_cache_entry_t` -/
structure CacheEntry where
  name : List UInt8 := []
  ip : List UInt8 := [0, 0, 0, 0]
  expiry : Nat := 0
  valid : Bool := false

theorem neZero_entries : NeZero 16 := ⟨by decide⟩

attribute [local instance] neZero_entries in
/-- `g_cache` and `g_cache_next`; the defaults are what `dns_init` sets.  `DNS_CACHE_SIZE` is 16. -/
structure Cache where
  entries : Fin 16 → CacheEntry := fun _ => {}
  next : Fin 16 := 0

def dnsStrLower (name : List UInt8) : List UInt8 := name.map dnsLower

/-- `dns_cache_lookup`, for what `timer_ticks` answers -/
def dnsCacheLookup (name : List UInt8) (ticks : Nat) (c : Cache) : Option (List UInt8) :=
  ((List.finRange 16).find? fun i =>
      (c.entries i).valid && decide (ticks < (c.entries i).expiry) && decide ((c.entries i).name = dnsStrLower name)).map
    fun i => (c.entries i).ip

/-- The expiry of an insertion, for what `timer_ticks` and `timer_hz` answer. -/
def dnsCacheExpiry (ttl ticks hz : Nat) : Nat :=
  let ttl := if 86400 < ttl then 300 else ttl
  (ticks + ttl * (if hz = 0 then 100 else hz)) % 2 ^ 64

/-- The entry that `dns_cache_insert` leaves in its slot. -/
def dnsCacheEntry (name ip : List UInt8) (ttl ticks hz : Nat) (e : CacheEntry) : CacheEntry :=
  let e := { e with name := dnsStrLower name, ip := ip }
  if ttl = 0 then e else { e with expiry := dnsCacheExpiry ttl ticks hz, valid := true }

def dnsCacheInsert (name ip : List UInt8) (ttl ticks hz : Nat) (c : Cache) : Cache where
  entries := Function.update c.entries c.next (dnsCacheEntry name ip ttl ticks hz (c.entries c.next))
  next := c.next + 1

/-! ## Histories -/

inductive CacheAction
  | insert (name ip : List UInt8) (ttl hz : Nat)
  | tick (ticks : Nat)

structure TimedCache where
  cache : Cache := {}
  ticks : Nat := 0

def cacheStep (s : TimedCache) : CacheAction → Option TimedCache
  | .insert name ip ttl hz => some { s with cache := dnsCacheInsert name ip ttl s.ticks hz s.cache }
  | .tick ticks => if s.ticks ≤ ticks ∧ ticks < 2 ^ 64 then some { s with ticks := ticks } else none

end Monios.Model.Dns
