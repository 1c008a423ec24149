import Pandio.Iocp.World

/- src/sys/tcp_win32.c, without its listeners. Each function is its steps: a step ends
   where the source calls the application. `none` is a call through a NULL pointer, a
   failed assertion or a NULL link of the queue.

   Correspondence (C ↔ Lean):
     `pd__tcp_try_close`, `pd_tcp_close`   ↔ `pd_tcpTryClose`, `pdTcpClose`
     `pd__tcp_post_recv`                   ↔ `pd_tcpPostRecv`, `postRecv` after the allocator
     `pd__tcp_read_io`                     ↔ `pd_tcpReadIo`, `readIoRest`
     `pd__tcp_write_io`                    ↔ `pd_tcpWriteIo`, `writeIoRest`
     `pd__tcp_connect_io`                  ↔ `pd_tcpConnectIo`, `connectIoRest`
     `pd_tcp_accept`, `pd_tcp_connect`     ↔ `pdTcpAccept`, `pdTcpConnect`
     `pd_tcp_write`, `pd_tcp_shutdown`     ↔ `pdTcpWrite`, `pdTcpShutdown`
     `pd_tcp_pause`, `pd_tcp_resume`       ↔ `pdTcpPause`, `pdTcpResume` -/
namespace Pandio.Iocp

/-- `-ECANCELED` and `-ENOMEM`. -/
def PD_ECANCELED : Int := -105

def PD_ENOMEM : Int := -12

section
variable (w : World) (s : Sid)

/-! ## Close and shutdown -/

/-- `pd__tcp_try_close`. -/
def pd_tcpTryClose : Option World :=
  if 0 < (w.tcp s).writesSize then some w
  -- the last completion goes on with the close
  else if (w.tcp s).flags.pendingRead then some w
  else
    let w := (w.closesocket s).logObs (.closesocket s)
    ((w.pendingCloses.queueInitNode s).queuePush s).map fun q =>
      (w.setPendingCloses q).logObs (.pushed s)

/-- `pd_tcp_close`. -/
def pdTcpClose : Option World :=
  if (w.tcp s).status = .closed then some w
  else
    let w := w.setStatus s .closed
    let w := if 0 < (w.tcp s).writesSize then w.cancelIo s else w
    let w := if (w.tcp s).flags.pendingRead then w.cancelIoEx s else w
    let w := w.setFlags s { (w.tcp s).flags with reading := false, writing := false }
    pd_tcpTryClose w s

/-- `pd_tcp_shutdown`. -/
def pdTcpShutdown : World :=
  if (w.tcp s).status ≠ .active then w
  else
    let w := w.setStatus s .shutdown
    if (w.tcp s).writesSize = 0 then w.logObs (.shutdown s) else w

/-! ## Reading -/

/-- `alloc_size`. -/
def allocSize : Nat := 8 * 1024

/-- `stream->on_data(stream, buf, size)`. -/
def callOnData (buf : Option Nat) (size : Int) (bytes : List UInt8) (fs : List Frame) :
    Option (World × List Item) :=
  if (w.tcp s).onData then some (w.call (.onData s buf size bytes) fs) else none

/-- `pd__tcp_post_recv` up to the allocator; the caller goes on with `fs`. -/
def pd_tcpPostRecv (fs : List Frame) : Option (World × List Item) :=
  if (w.tcp s).hasFd then some (w.call (.allocator s) (.postRecv s :: fs)) else none

/-- `pd__tcp_post_recv` with the allocator's buffer. -/
def postRecv (a : Answer) : Option (World × List Item) :=
  let w := w.setTcp s { w.tcp s with readBuf := w.ptr }
  match w.ptr with
  | none => callOnData w s none PD_ENOMEM [] []
  | some buf =>
    let k := w.sock s
    let r := k.recvRes allocSize (a.sys 0)
    let w := w.logObs (.wsaRecv s r)
    match r with
    | .ok n =>
      -- no packet will come: the socket skips the port
      callOnData (w.setSock s { k with taken := k.taken + n }) s (some buf) n (k.rx.take n) []
    | .err e => callOnData w s (some buf) e [] []
    | .pending =>
      let w := w.setSock s { k with recvs := k.recvs ++ [buf] }
      let w := w.setFlags s { (w.tcp s).flags with reading := true, pendingRead := true }
      some (w.goOn [])

/-- What the buffer of the stream holds of a completed receive: nothing, if another receive was
posted since with another buffer. -/
def received (r : Recv) : List UInt8 := if (w.tcp s).readBuf = some r.buf then r.bytes else []

/-- `pd__tcp_read_io` up to `on_data`. -/
def pd_tcpReadIo (r : Recv) : Option (World × List Item) :=
  let w := (w.setFlags s { (w.tcp s).flags with pendingRead := false }).logObs (.received s r)
  if 0 < r.bytes.length then
    callOnData w s (w.tcp s).readBuf r.bytes.length (received w s r) [.readIoRest s]
  -- the end of the stream, an error, or a cancelled receive
  else (pdTcpClose w s).map (·.goOn [])

/-- The rest of `pd__tcp_read_io`. -/
def readIoRest : Option (World × List Item) :=
  if (w.tcp s).status = .closed then (pd_tcpTryClose w s).map (·.goOn [])
  else if (w.tcp s).flags.reading then pd_tcpPostRecv w s []
  else some (w.goOn [])

/-- `pd_tcp_pause`. -/
def pdTcpPause : World :=
  let w := w.setFlags s { (w.tcp s).flags with reading := false }
  if (w.tcp s).flags.pendingRead then w.cancelIoEx s else w

/-- `pd_tcp_resume`. -/
def pdTcpResume : Option (World × List Item) :=
  let w := w.setFlags s { (w.tcp s).flags with reading := true }
  if (w.tcp s).flags.pendingRead then some (w.goOn []) else pd_tcpPostRecv w s []

/-! ## Writing -/

/-- `write_op->cb(write_op, status)` in `pd_tcp_write`. -/
def callWrite (op : Op) (r : WriteOp) (status : Int) : Option (World × List Item) :=
  if r.cb then some (w.call (.write s op status) []) else none

/-- `pd_tcp_write` of an operation that was just prepared. -/
def pdTcpWrite (op : Op) (r : WriteOp) (a : Answer) : Option (World × List Item) :=
  let w := w.setOp s op r
  if (w.tcp s).status ≠ .active then callWrite w s op r PD_ECANCELED
  else
    let k := w.sock s
    let res := k.sendRes (a.sys 0)
    let w := w.logObs (.wsaSend s op res)
    match res with
    | .ok _ => callWrite w s op r 0
    | .err e => callWrite w s op r e
    | .pending =>
      let w := w.setSock s { k with sends := k.sends ++ [op] }
      let t := w.tcp s
      some ((w.setTcp s
        { t with
          writesSize := t.writesSize + 1
          flags := { t.flags with writing := true } }).goOn [])

/-- `pd__tcp_write_io` up to the operation's callback. -/
def pd_tcpWriteIo (op : Op) : World × List Item :=
  if (w.op s op).any (·.cb) then w.call (.write s op 0) [.writeIoRest s]
  else w.goOn [.writeIoRest s]

/-- `stream->writes_size--` and what follows when it is 0. -/
def writeDone : World :=
  let w := w.setTcp s { w.tcp s with writesSize := (w.tcp s).writesSize - 1 }
  if (w.tcp s).writesSize = 0 then
    -- stream is not writable because have no data to write anymore
    let w := w.setFlags s { (w.tcp s).flags with writing := false }
    if (w.tcp s).status = .shutdown then w.logObs (.shutdown s) else w
  else w

/-- The rest of `pd__tcp_write_io`. -/
def writeIoRest : Option (World × List Item) :=
  let w := writeDone w s
  if (w.tcp s).status = .closed then (pd_tcpTryClose w s).map (·.goOn []) else some (w.goOn [])

/-! ## Opening -/

/-- `pd_tcp_accept` with the socket of a connection. -/
def pdTcpAccept : Option (World × List Item) :=
  let w := w.setTcp s { w.tcp s with status := .active, hasFd := true }
  let w := (w.setSock s ((w.sock s).replaced (.opened true))).incRefs
  pd_tcpPostRecv (w.logObs (.accepted s)) s []

/-- `pd__tcp_connect_io`, for a failed connection to its end. -/
def pd_tcpConnectIo (status : Int) : Option (World × List Item) :=
  if status = 0 then pd_tcpPostRecv (w.logObs (.connected s)) s [.connectIoRest s]
  else some (if (w.tcp s).onConnect then w.call (.onConnect s status) [] else w.goOn [])

/-- The rest of `pd__tcp_connect_io`. -/
def connectIoRest : World × List Item :=
  let w := w.setStatus s .active
  if (w.tcp s).onConnect then w.call (.onConnect s 0) [] else w.goOn []

/-- What `pd_tcp_connect` returns after `inet_pton`, if that gives no address. -/
def ptonError (a : Answer) : Option Int :=
  match a.sys 1 with
  -- no valid address, which is no error of the thread
  | .ok 0 => some a.lastError
  | r => r.error

/-- The first error of `pd_tcp_connect` between its `socket` and its `ConnectEx`: `inet_pton`,
`bind`, `WSAIoctl` (for the first stream only), `malloc`, and the two calls for the port. -/
def connectError (a : Answer) : Option Int :=
  ptonError a <|> (a.sys 2).error <|> (a.sys 3).error <|>
    (a.sys 4).error.map (fun _ => PD_ENOMEM) <|> (a.sys 5).error <|> (a.sys 6).error

/-- `pd_tcp_connect` fails after its `socket`, and closes it. -/
def ConnectFails (a : Answer) : Prop := (a.sys 0).error = none ∧ connectError a ≠ none

instance (a : Answer) : Decidable (ConnectFails a) := inferInstanceAs (Decidable (_ ∧ ¬ _))

/-- The socket after `ConnectEx`. A connection that is there at once skips the port; an error is
`FALSE`, which the source takes for success. -/
def connectSock (r : WsaRes) : Sock :=
  match r with
  | .pending => { Sock.opened false with connecting := true }
  | .ok _ => .opened true
  | .err _ => .opened false

/-- `pd_tcp_connect`. -/
def pdTcpConnect (onConnect : Bool) (a : Answer) : World :=
  match (a.sys 0).error with
  | some e => w.setResult e
  | none =>
    let w := w.setTcp s { w.tcp s with hasFd := true, onConnect := onConnect }
    match connectError a with
    -- the handle keeps the descriptor of the closed socket
    | some e => (w.setSock s ((w.sock s).replaced .none)).setResult e
    | none =>
      ((w.setSock s ((w.sock s).replaced (connectSock (a.sys 7)))).incRefs).setResult 0

end

end Pandio.Iocp
