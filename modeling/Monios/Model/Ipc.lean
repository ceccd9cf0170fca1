import Monios.Library.Bitmap
import Monios.Model.Path

/-!
# Ports

`kernel/ipc/ipc.c`: a port has a name and a ring of eight messages.  Names and messages are copied
into buffers of a fixed size, and out of them into a buffer of the caller, by `ipc_copy_text`, which
cuts off what does not fit.

A name that is `NULL` is an empty one.  Left out are the counters, which nothing here reads, and the
status texts.
-/

set_option autoImplicit false

namespace Monios.Model.Ipc

open Monios.Library

def ipcPortNameMax : Nat := 16

def ipcMessageMax : Nat := 128

def ipcQueueDepth : Nat := 8

/-- `IPC_MAX_PORTS` -/
abbrev PortSlot := Fin 16

/-- `ipc_port_state_t`; the texts in it without the zeros behind them. -/
structure Port where
  used : Bool := false
  portId : Int := 0
  name : List UInt8 := []
  queue : Nat → List UInt8 := fun _ => []
  head : Nat := 0
  tail : Nat := 0
  count : Nat := 0

/-- `g_ports`, and the bitmap of `g_port_pool`. -/
structure State where
  ports : PortSlot → Port := fun _ => {}
  pool : PortSlot → Bool := fun _ => false

def State.set (s : State) (slot : PortSlot) (port : Port) : State :=
  { s with ports := Function.update s.ports slot port }

/-- `ipc_copy_text`: the text that a buffer of `size` bytes, which are not none, gets. -/
def ipcCopyText (size : Nat) (src : List UInt8) : List UInt8 := src.take (size - 1)

def ipcFindPort (s : State) (portId : Int) : Option PortSlot :=
  (List.finRange 16).find? fun i => (s.ports i).used && (s.ports i).portId == portId

def ipcPortFind (s : State) (name : List UInt8) : Int :=
  match (List.finRange 16).find? fun i => (s.ports i).used && (s.ports i).name == name with
  | some i => (s.ports i).portId
  | none => -1

def ipcPortCreate (s : State) (name : CString) : Int × State :=
  if name.val = [] then (-1, s)
  else
    let existing := ipcPortFind s name.val
    if existing ≥ 0 then (existing, s)
    else
      match Bitmap.firstClear s.pool with
      | none => (-1, s)
      | some slot =>
        let port : Port := { used := true, portId := slot.val + 1, name := ipcCopyText ipcPortNameMax name.val }
        (slot.val + 1, { s.set slot port with pool := Function.update s.pool slot true })

def ipcPortClose (s : State) (portId : Int) : Bool × State :=
  match ipcFindPort s portId with
  | none => (false, s)
  | some i =>
    if portId ≤ 0 then (false, s)
    else (true, { s.set i {} with pool := fun j => if (j.val : Int) = portId - 1 then false else s.pool j })

/-- `ipc_send_text`; a text that is `NULL` is `none`. -/
def ipcSendText (s : State) (portId : Int) (text : Option CString) : Bool × State :=
  match ipcFindPort s portId, text with
  | some i, some text =>
    let port := s.ports i
    if port.count ≥ ipcQueueDepth then (false, s)
    else
      (true, s.set i { port with
        queue := Function.update port.queue port.tail (ipcCopyText ipcMessageMax text.val)
        tail := (port.tail + 1) % ipcQueueDepth
        count := port.count + 1 })
  | _, _ => (false, s)

/-- `ipc_recv_text`: the result, the text that the buffer gets, and the ports. -/
def ipcRecvText (s : State) (portId : Int) (bufOk : Bool) (bufferSize : Nat) :
    Int × Option (List UInt8) × State :=
  match ipcFindPort s portId with
  | none => (-1, none, s)
  | some i =>
    if !bufOk || bufferSize == 0 then (-1, none, s)
    else
      let port := s.ports i
      if port.count = 0 then (0, none, s)
      else
        let text := ipcCopyText bufferSize (port.queue port.head)
        (text.length, some text, s.set i { port with head := (port.head + 1) % ipcQueueDepth, count := port.count - 1 })

/-- The body of the loop of `ipc_broadcast_text`, over `delivered` and the ports. -/
def ipcBroadcastTo (text : CString) (r : Nat × State) (index : PortSlot) : Nat × State :=
  if (r.2.ports index).used then
    let sent := ipcSendText r.2 (r.2.ports index).portId (some text)
    (if sent.1 then r.1 + 1 else r.1, sent.2)
  else r

def ipcBroadcastText (s : State) : Option CString → Nat × State
  | none => (0, s)
  | some text => (List.finRange 16).foldl (ipcBroadcastTo text) (0, s)

/-! ## Runs -/

inductive Action
  | create (name : CString)
  | close (portId : Int)
  | send (portId : Int) (text : Option CString)
  | recv (portId : Int) (bufOk : Bool) (bufferSize : Nat)

def apply (s : State) : Action → State
  | .create name => (ipcPortCreate s name).2
  | .close portId => (ipcPortClose s portId).2
  | .send portId text => (ipcSendText s portId text).2
  | .recv portId bufOk bufferSize => (ipcRecvText s portId bufOk bufferSize).2.2

end Monios.Model.Ipc
