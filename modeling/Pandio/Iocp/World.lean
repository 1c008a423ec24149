import Pandio.Lib.IntrusiveQueue
import Pandio.Unix.World

/- The state of one `pd_io_t` on Windows: the streams, the kernel's side of their
   sockets, the completion port, and a log of what can be seen from outside. Names
   and the kinds of status are those of the Unix backend.

   A stream has the handle of one socket. The kernel holds the receives and sends that
   are outstanding on it; each ends with a packet in the completion port, also if it
   is cancelled. What is outstanding on a socket whose handle was overwritten ends in
   the same way, and is cancelled by nothing. Sockets come from `AcceptEx` or `ConnectEx`
   and skip the port when an operation succeeds at once. Errors are given as `pd_errmap`
   maps them. A `size_t` that counts objects in memory is a natural number; `refs` wraps.

   Correspondence (C ↔ Lean):
     `pd_tcp_t`, `stream->flags`          ↔ `Tcp`, `StreamFlags`
     `pd_io_t`, `pending_closes`          ↔ `World`, an `IntrusiveQueue` of the nodes
     `OVERLAPPED_ENTRY`                   ↔ `Packet`
     `CancelIo`, `CancelIoEx`             ↔ `cancelIo`, `cancelIoEx`
     `closesocket`                        ↔ `closesocket` -/
namespace Pandio.Iocp

/-! ## The kernel -/

/-- How a receive ended: the `Internal` field of its `OVERLAPPED`, which the library does not
read. -/
inductive RecvStatus where
  | success
  | aborted
  | failed
  deriving DecidableEq, Repr

/-- A completed receive: its buffer, what was transferred, and how it ended. -/
structure Recv where
  buf : Nat
  bytes : List UInt8
  status : RecvStatus
  deriving DecidableEq, Repr

/-- An entry of the completion port, by the `pd_event_t` it is for. -/
inductive Packet where
  /-- `stream->revent`. -/
  | recv (s : Sid) (r : Recv)
  /-- `write_op->event`. -/
  | send (s : Sid) (op : Op)
  /-- The event of `pd_tcp_connect`, with 0 or the error. -/
  | connect (s : Sid) (status : Int)
  deriving DecidableEq, Repr

/-- The result of a Winsock call that may be overlapped: the number of bytes, `WSA_IO_PENDING`, or
another error. -/
inductive WsaRes where
  | ok (n : Nat)
  | pending
  | err (e : Int)
  deriving DecidableEq, Repr

/-- An operation that is outstanding. -/
inductive Pending where
  | recv (buf : Nat)
  | send (op : Op)
  | connect
  deriving DecidableEq, Repr

/-- The stream whose event a packet is for. -/
def Packet.stream : Packet → Sid
  | .recv s _ | .send s _ | .connect s _ => s

/-- The operation that a packet ends. -/
def Packet.pending : Packet → Pending
  | .recv _ r => .recv r.buf
  | .send _ op => .send op
  | .connect _ _ => .connect

def WsaRes.error : WsaRes → Option Int
  | .err e => some e
  | _ => none

/-- The kernel's side of a stream's socket. -/
structure Sock where
  isOpen : Bool
  connected : Bool
  /-- What the peer has sent and has arrived. -/
  arrived : List UInt8
  /-- The number of bytes given to receives. -/
  taken : Nat
  /-- The peer's FIN has arrived, after the bytes. -/
  fin : Bool
  /-- The buffers of the outstanding receives, the oldest first. -/
  recvs : List Nat
  /-- The outstanding sends. -/
  sends : List Op
  /-- `ConnectEx` is outstanding. -/
  connecting : Bool
  /-- What is outstanding on sockets whose handle the stream has lost. -/
  left : List Pending
  deriving DecidableEq, Repr

/-- `ERROR_OPERATION_ABORTED`, `WSAENOTSOCK` and `WSAENOTCONN` through `pd_errmap`. -/
def PD_EINTR : Int := -4

def PD_ENOTSOCK : Int := -128

def PD_ENOTCONN : Int := -126

namespace Sock

/-- No socket. -/
def none : Sock :=
  { isOpen := false, connected := false, arrived := [], taken := 0, fin := false
    recvs := [], sends := [], connecting := false, left := [] }

/-- A new socket. -/
def opened (connected : Bool) : Sock := { none with isOpen := true, connected := connected }

/-- What is outstanding on the socket. -/
def outstanding (k : Sock) : List Pending :=
  k.recvs.map .recv ++ k.sends.map .send ++ if k.connecting then [.connect] else []

/-- The handle of another socket takes the place of this one's, which stays as it is. -/
def replaced (k k' : Sock) : Sock := { k' with left := k.left ++ k.outstanding }

/-- Arrived and not given to a receive. -/
def rx (k : Sock) : List UInt8 := k.arrived.drop k.taken

/-- The result of `WSARecv` with a buffer of this size. It is pending if there is nothing to
receive. -/
def recvRes (k : Sock) (size : Nat) (r : WsaRes) : WsaRes :=
  if !k.isOpen then .err PD_ENOTSOCK
  else if !k.connected then .err PD_ENOTCONN
  else
    match r with
    | .err e => .err e
    | .pending => .pending
    | .ok n =>
      if k.rx = [] then if k.fin then .ok 0 else .pending
      else .ok (max 1 (min n (min size k.rx.length)))

/-- The result of `WSASend`. -/
def sendRes (k : Sock) (r : WsaRes) : WsaRes := if !k.isOpen then .err PD_ENOTSOCK else r

end Sock

/-! ## The objects -/

/-- The bits of `stream->flags`. -/
structure StreamFlags where
  writing : Bool
  reading : Bool
  pendingRead : Bool
  deriving DecidableEq, Repr

/-- `pd_tcp_t`; a callback field says whether it is set. -/
structure Tcp where
  /-- `fd` is not `INVALID_SOCKET`. -/
  hasFd : Bool
  /-- `read_buf.buf`. -/
  readBuf : Option Nat
  onData : Bool
  onClose : Bool
  onConnect : Bool
  status : TcpStatus
  flags : StreamFlags
  writesSize : Nat
  deriving DecidableEq, Repr

/-- `pd_tcp_init`. -/
def pdTcpInit : Tcp :=
  { hasFd := false, readBuf := .none, onData := false, onClose := false, onConnect := false
    status := .none, flags := ⟨false, false, false⟩, writesSize := 0 }

/-- `pd_write_t` after `pd_write_init`. -/
structure WriteOp where
  data : List UInt8
  cb : Bool
  deriving DecidableEq, Repr

/-! ## What can be seen from outside -/

/-- The application code the library calls. -/
inductive Cb where
  | main
  | write (s : Sid) (op : Op) (status : Int)
  | allocator (s : Sid)
  /-- `on_data(stream, buf, size)`, with what the last receive has put into `buf`. -/
  | onData (s : Sid) (buf : Option Nat) (size : Int) (bytes : List UInt8)
  | onConnect (s : Sid) (status : Int)
  | onClose (s : Sid)
  /-- The callback of a timer or of a task. -/
  | other
  | afterTick
  deriving DecidableEq, Repr

/-- An entry of the log. -/
inductive Obs where
  | cb (k : Cb)
  /-- `WSARecv`, with its result. -/
  | wsaRecv (s : Sid) (r : WsaRes)
  | wsaSend (s : Sid) (op : Op) (r : WsaRes)
  /-- A receive is taken from the port and handled. -/
  | received (s : Sid) (r : Recv)
  /-- `pd_tcp_accept`. -/
  | accepted (s : Sid)
  /-- `pd__tcp_connect_io` for an established connection. -/
  | connected (s : Sid)
  /-- The application calls `pd_tcp_pause` or `pd_tcp_resume`. -/
  | paused (s : Sid)
  | resumed (s : Sid)
  /-- The application calls `pd_tcp_close`. -/
  | close (s : Sid)
  /-- `pd__tcp_try_close` closes the stream's socket and pushes its node. -/
  | closesocket (s : Sid)
  | pushed (s : Sid)
  /-- `pd__tcp_pending_close` takes the node from the queue. -/
  | popped (s : Sid)
  /-- `ctx->refs--` for the stream. -/
  | refDec (s : Sid)
  | shutdown (s : Sid)
  deriving DecidableEq, Repr

/-- `pd_io_t` with everything the library reaches from it. -/
structure World where
  refs : Nat
  /-- The units of `refs` that timers, tasks and listeners hold. -/
  others : Nat
  tcp : Sid → Tcp
  sock : Sid → Sock
  /-- The operations passed to `pd_tcp_write` of a stream so far. -/
  op : Sid → Op → Option WriteOp
  pendingCloses : IntrusiveQueue Sid
  afterTick : Bool
  /-- The completion port, its oldest packet first. -/
  port : List Packet
  /-- The pointer the allocator returned last. -/
  ptr : Option Nat
  /-- The `int` the application's last call returned. -/
  result : Int
  log : List Obs

namespace World

/-! ## Updates -/

variable (w : World) (s : Sid)

def logObs (o : Obs) : World := { w with log := w.log ++ [o] }

def setTcp (t : Tcp) : World := { w with tcp := Function.update w.tcp s t }

def setSock (k : Sock) : World := { w with sock := Function.update w.sock s k }

def setFlags (f : StreamFlags) : World := w.setTcp s { w.tcp s with flags := f }

def setStatus (st : TcpStatus) : World := w.setTcp s { w.tcp s with status := st }

def setOp (o : Op) (r : WriteOp) : World :=
  { w with op := Function.update w.op s (Function.update (w.op s) o (some r)) }

def setPort (l : List Packet) : World := { w with port := l }

def setRefs (n : Nat) : World := { w with refs := n }

def setOthers (n : Nat) : World := { w with others := n }

/-- `ctx->refs++`. -/
def incRefs : World := w.setRefs ((w.refs + 1) % 2 ^ 64)

/-- `ctx->refs--`. -/
def decRefs : World := w.setRefs (if w.refs = 0 then 2 ^ 64 - 1 else w.refs - 1)

def setPendingCloses (q : IntrusiveQueue Sid) : World := { w with pendingCloses := q }

def setAfterTick (b : Bool) : World := { w with afterTick := b }

def setPtr (p : Option Nat) : World := { w with ptr := p }

/-- `return n;` -/
def setResult (n : Int) : World := { w with result := n }

/-! ## Cancelling -/

/-- `CancelIoEx` with the `OVERLAPPED` of the stream's receives. -/
def cancelIoEx : World :=
  let k := w.sock s
  (w.setSock s { k with recvs := [] }).setPort
    (w.port ++ k.recvs.map fun buf => .recv s ⟨buf, [], .aborted⟩)

/-- `CancelIo`: everything that is outstanding on the socket. -/
def cancelIo : World :=
  let k := w.sock s
  (w.setSock s { k with recvs := [], sends := [], connecting := false }).setPort
    (w.port ++ (k.recvs.map fun buf => .recv s ⟨buf, [], .aborted⟩) ++
      k.sends.map (.send s) ++ if k.connecting then [.connect s PD_EINTR] else [])

/-- `closesocket`; the `CloseHandle` that follows it in the source finds no handle. -/
def closesocket : World :=
  let w := w.cancelIo s
  w.setSock s { w.sock s with isOpen := false }

end World

/-! ## The call stack -/

/-- What is left to do of a library function when it has called the application. -/
inductive Frame where
  /-- `pd__tcp_post_recv` after the allocator. -/
  | postRecv (s : Sid)
  /-- `pd__tcp_read_io` after `on_data`. -/
  | readIoRest (s : Sid)
  /-- `pd__tcp_write_io` after the operation's callback. -/
  | writeIoRest (s : Sid)
  /-- `pd__tcp_connect_io` after `pd__tcp_post_recv`. -/
  | connectIoRest (s : Sid)
  /-- `ev->handler(ev)`. -/
  | dispatch (p : Packet)
  /-- `pd_timers_run`. -/
  | timersRun
  /-- `pd__tcp_pending_close` at the head of its loop. -/
  | pendingClose
  /-- `pd__tcp_pending_close` after `on_close`. -/
  | pendingCloseDec (s : Sid)
  /-- `pd_io_run` at the head of its loop. -/
  | ioRun
  /-- `pd_io_run` from the `after_tick` hook on. -/
  | ioAfterTick
  /-- `pd_io_run` at the end of its loop's body. -/
  | ioNext
  deriving DecidableEq, Repr

/-- An entry of the call stack. -/
inductive Item where
  | lib (f : Frame)
  | app (k : Cb)
  deriving DecidableEq, Repr

/-- What the kernel answers during one step: the results of the calls in the order in which the
step makes them. -/
structure Answer where
  sys : Nat → WsaRes
  /-- What `pd_errno` gives when no call of the step has failed. -/
  lastError : Int
  /-- `pd_timers_run` finds a timer that is due. -/
  due : Bool
  /-- Errors are negative. -/
  err_neg : ∀ i e, sys i = .err e → e < 0
  /-- It is 0 if no call has failed before. -/
  lastError_le : lastError ≤ 0

/-- The library goes on with `fs`. -/
def World.goOn (w : World) (fs : List Frame) : World × List Item := (w, fs.map .lib)

/-- The library calls the application, and goes on with `fs` afterwards. -/
def World.call (w : World) (k : Cb) (fs : List Frame) : World × List Item :=
  (w.logObs (.cb k), .app k :: fs.map .lib)

end Pandio.Iocp
