import Mathlib.Data.List.Basic
import Monios.Library.Bytes

/-!
# The network file system

`fs/netfs.c`: one TCP session, over which every operation sends a request and reads an answer.

The server answers every request that it gets, in order; what it answers, and when the bytes of an
answer arrive, comes from outside.  A byte that has not been received yet is kept with the number of
the request that it answers, which the source does not have and on which nothing is decided.  What
is sent is not part of the state, nor are the names of the server and of the share.  A null pointer
as a path or a buffer is left out, and so is what a failed operation leaves in a buffer.
-/

set_option autoImplicit false

namespace Monios.Model.Netfs

open Monios.Library

def nfRecvWait : Nat := 300000

def nfMaxPath : Nat := 256

def nfRespFixed : Nat := 5

/-- The command codes `NETFS_CMD_…`. -/
inductive NetfsCmd
  | exist | read | write | delete | list | size | isDir | mkdir | rmdir
  deriving DecidableEq, Repr

def netfsStatusOk : UInt8 := 0

/-- A value that is returned as `int32_t`. -/
def int32 (n : Nat) : Int := Int.bmod n (2 ^ 32)

/-! ## The server and the network -/

structure Answer where
  status : UInt8
  data : List UInt8
  data_lt : data.length < 2 ^ 32

def Answer.bytes (a : Answer) : List UInt8 := a.status :: le32 a.data.length ++ a.data

/-- What a call of `socket_tcp_recv` finds: so many bytes at most, or a connection that is gone. -/
inductive Poll
  | bytes (n : Nat)
  | failed
  deriving DecidableEq

structure Env where
  requestSent : Bool
  payloadSent : Bool
  answer : Answer
  polls : Nat → Poll

abbrev Tagged := Nat × UInt8

/-- `g_nf_handle` (whether there is one) and `g_nf_session_up`, with the bytes of the connection
that have not been received. -/
structure Session where
  handle : Bool := false
  sessionUp : Bool := false
  pending : List Tagged := []
  requests : Nat := 0

/-! ## Receiving -/

inductive RecvEnd
  | full | timedOut | broken
  deriving DecidableEq

/-- What a receive leaves: the bytes, the number of polls so far, and the bytes that have not been
received. -/
structure Received where
  ending : RecvEnd
  got : List Tagged
  pos : Nat
  pending : List Tagged

/-- The loop of `nf_recv_full` with `len` bytes still to come. -/
def nfRecvFull (polls : Nat → Poll) (len waited pos : Nat) (pending got : List Tagged) : Received :=
  if len = 0 then ⟨.full, got, pos, pending⟩
  else
    match polls pos with
    | .failed => ⟨.broken, got, pos + 1, pending⟩
    | .bytes available =>
      let n := min available (min (min len 0xFFFF) pending.length)
      if 0 < n then nfRecvFull polls (len - n) 0 (pos + 1) (pending.drop n) (got ++ pending.take n)
      else if waited + 1 > nfRecvWait then ⟨.timedOut, got, pos + 1, pending⟩
      else nfRecvFull polls len (waited + 1) (pos + 1) pending got
termination_by (len, nfRecvWait - waited)
decreasing_by
  · apply Prod.Lex.left
    omega
  · apply Prod.Lex.right
    omega

/-- `nf_drain`, 256 bytes at a time -/
def nfDrain (polls : Nat → Poll) (n pos : Nat) (pending got : List Tagged) : Received :=
  if n = 0 then ⟨.full, got, pos, pending⟩
  else
    let r := nfRecvFull polls (min n 256) 0 pos pending got
    if r.ending = .full then nfDrain polls (n - min n 256) r.pos r.pending r.got else r
termination_by n

/-! ## A request and its answer -/

/-- The arguments of `nf_transact`; `respCap` is missing for a null `resp_data`. -/
structure Request where
  cmd : NetfsCmd
  path : List UInt8
  offset : Nat := 0
  length : Nat := 0
  payload : List UInt8 := []
  respCap : Option Nat := none

/-- What `nf_transact` returns and writes to `resp_data`, the bytes that it has received, and the
session after it. -/
structure Outcome where
  result : Int
  data : List UInt8
  received : List Tagged
  session : Session

def Session.after (s : Session) (r : Received) : Session :=
  { s with pending := r.pending, sessionUp := s.sessionUp && r.ending != .broken }

/-- `nf_transact`, behind the header of the answer -/
def nfFinish (q : Request) (polls : Nat → Poll) (s : Session) (header : Received) : Outcome :=
  let bytes := header.got.map Prod.snd
  let status := bytes.headD 0
  let rlen := readU32 bytes 1
  if status ≠ netfsStatusOk then
    let rest := nfDrain polls rlen header.pos header.pending header.got
    ⟨-2, [], rest.got, s.after rest⟩
  else if rlen = 0 then ⟨0, [], header.got, s.after header⟩
  else
    match q.respCap with
    | none =>
      let rest := nfDrain polls rlen header.pos header.pending header.got
      ⟨if rest.ending = .full then int32 rlen else -1, [], rest.got, s.after rest⟩
    | some respCap =>
      let cap := min rlen respCap
      let body := nfRecvFull polls cap 0 header.pos header.pending header.got
      if body.ending ≠ .full then ⟨-1, [], body.got, s.after body⟩
      else
        let rest := nfDrain polls (rlen - cap) body.pos body.pending body.got
        if rest.ending ≠ .full then ⟨-1, [], rest.got, s.after rest⟩
        else ⟨int32 cap, (body.got.drop nfRespFixed).map Prod.snd, rest.got, s.after rest⟩

def nfTransact (q : Request) (env : Env) (s : Session) : Outcome :=
  if !s.sessionUp || !s.handle then ⟨-1, [], [], s⟩
  else if q.path.length > nfMaxPath then ⟨-1, [], [], s⟩
  else if !env.requestSent || (0 < q.payload.length && !env.payloadSent) then ⟨-1, [], [], { s with sessionUp := false }⟩
  else
    let answer := env.answer.bytes.map fun b => (s.requests, b)
    let s := { s with pending := s.pending ++ answer, requests := s.requests + 1 }
    let header := nfRecvFull env.polls nfRespFixed 0 0 s.pending []
    if header.ending ≠ .full then ⟨-1, [], header.got, s.after header⟩ else nfFinish q env.polls s header

/-! ## Operations -/

/-- An operation: its request, or what it returns without one, and what it makes of the outcome. -/
structure Call where
  request : Option Request
  early : Int := -1
  finish : Int → List UInt8 → Int × List UInt8

def flag (b : Bool) : Int := if b then 1 else 0

def statusCall (cmd : NetfsCmd) (path : List UInt8) : Call where
  request := some { cmd := cmd, path := path }
  finish r _ := (flag (decide (0 ≤ r)), [])

def netfsExists (path : List UInt8) : Call := statusCall .exist path

def netfsIsDir (path : List UInt8) : Call := statusCall .isDir path

def netfsDelete (path : List UInt8) : Call := statusCall .delete path

def netfsMkdir (path : List UInt8) : Call := statusCall .mkdir path

def netfsRmdir (path : List UInt8) : Call := statusCall .rmdir path

def netfsFileSize (path : List UInt8) : Call where
  request := some { cmd := .size, path := path, respCap := some 4 }
  finish r data := (if 4 ≤ r then int32 (readU32 data 0) else -1, [])

def netfsReadFileAt (path : List UInt8) (offset bufferSize : Nat) : Call where
  request := some { cmd := .read, path := path, offset := offset, length := bufferSize, respCap := some bufferSize }
  finish r data := (r, data)

def netfsReadFile (path : List UInt8) (bufferSize : Nat) : Call := netfsReadFileAt path 0 bufferSize

def netfsWriteFile (path buffer : List UInt8) : Call where
  request :=
    if buffer.length = 0 ∨ 0xFFFF < buffer.length then none
    else some { cmd := .write, path := path, length := buffer.length, payload := buffer }
  early := if buffer.length = 0 then 0 else -1
  finish r _ := (if 0 ≤ r then buffer.length else -1, [])

def netfsListDir (path : List UInt8) (bufferSize : Nat) : Call where
  request := if bufferSize = 0 then none else some { cmd := .list, path := path, respCap := some (bufferSize - 1) }
  early := flag false
  finish r data := if r < 0 then (flag false, []) else (flag true, data ++ [0])

inductive Op
  | exist (path : List UInt8)
  | isDir (path : List UInt8)
  | delete (path : List UInt8)
  | mkdir (path : List UInt8)
  | rmdir (path : List UInt8)
  | fileSize (path : List UInt8)
  | readFile (path : List UInt8) (bufferSize : Nat)
  | readFileAt (path : List UInt8) (offset bufferSize : Nat)
  | writeFile (path buffer : List UInt8)
  | listDir (path : List UInt8) (bufferSize : Nat)

def Op.call : Op → Call
  | .exist path => netfsExists path
  | .isDir path => netfsIsDir path
  | .delete path => netfsDelete path
  | .mkdir path => netfsMkdir path
  | .rmdir path => netfsRmdir path
  | .fileSize path => netfsFileSize path
  | .readFile path bufferSize => netfsReadFile path bufferSize
  | .readFileAt path offset bufferSize => netfsReadFileAt path offset bufferSize
  | .writeFile path buffer => netfsWriteFile path buffer
  | .listDir path bufferSize => netfsListDir path bufferSize

def perform (op : Op) (env : Env) (s : Session) : (Int × List UInt8) × Session :=
  match op.call.request with
  | none => ((op.call.early, []), s)
  | some q =>
    let r := nfTransact q env s
    (op.call.finish r.result r.data, r.session)

def netfsDisconnect (s : Session) : Session := { s with handle := false, sessionUp := false }

/-- `netfs_init`, for whether the connection comes about; it is a new one, without bytes. -/
def netfsInit (connected : Bool) (s : Session) : Session :=
  let s := netfsDisconnect s
  if connected then { s with handle := true, sessionUp := true, pending := [] } else s

/-- `netfs_connected`, for what `socket_tcp_is_connected` answers -/
def netfsConnected (alive : Bool) (s : Session) : Bool × Session :=
  if !s.handle || !alive then (false, { s with sessionUp := false }) else (s.sessionUp, s)

inductive Action
  | init (connected : Bool)
  | disconnect
  | connected (alive : Bool)
  | operation (op : Op) (env : Env)

def step (s : Session) : Action → Option Session
  | .init connected => some (netfsInit connected s)
  | .disconnect => some (netfsDisconnect s)
  | .connected alive => some (netfsConnected alive s).2
  | .operation op env => some (perform op env s).2

end Monios.Model.Netfs
