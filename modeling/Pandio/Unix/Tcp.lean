import Pandio.Unix.World

/- src/sys/tcp_unix.c. Each function is its steps: a step makes at most one of the
   system calls whose result decides how it goes on, and ends where the source
   calls the application or repeats a call that was interrupted. `none` is a call
   through a NULL pointer or a failed assertion.

   Correspondence (C ↔ Lean):
     `pd_tcp_close`                  ↔ `pdTcpClose`, its loop `closeDrain`
     `pd_tcp_shutdown`               ↔ `pdTcpShutdown`
     `pd__tcp_read`                  ↔ `pd_tcpRead`, `readAlloc`, `readTry`
     `pd__tcp_write`                 ↔ `pd_tcpWrite`, its loop `writeLoop`
     `pd__tcp_client_io`             ↔ `pd_tcpClientIo`, `clientIoRest`
     `pd__tcp_connect_io`            ↔ `pd_tcpConnectIo`
     `pd_tcp_accept`, `pd_tcp_connect` ↔ `pdTcpAccept`, `pdTcpConnect`
     `pd_tcp_pause`, `pd_tcp_resume` ↔ `pdTcpPause`, `pdTcpResume`
     `pd_tcp_write`                  ↔ `pdTcpWrite`, `writeTry`
     `pd_tcp_write_async`            ↔ `pdTcpWriteAsync`
     `pd_tcp_listen`, `pd_tcp_server_close` ↔ `pdTcpListen`, `pdTcpServerClose`
     `pnd__tcp_listener_io`          ↔ `pnd_tcpListenerIo` -/
namespace Pandio

/-- `errno` as the status of a callback. -/
def PD_ECANCELED : Int := -(ECANCELED : Int)

def PD_ENOMEM : Int := -(ENOMEM : Int)

section
variable (w : World) (s : Sid)

/-! ## The poller -/

/-- `pd__event_add` for a stream. -/
def pd_eventAdd (r : SysRes) : World :=
  let t := w.tcp s
  let k := w.kernel.ctl .add t.fd (.tcp s) t.flags r
  ((w.setKernel k.1).setErrno k.2).logObs (.ctl (.tcp s) t.fd .add)

/-- `pd__event_set` for a stream. -/
def pd_eventSet (r : SysRes) : World :=
  let t := w.tcp s
  let k := w.kernel.ctl .mod t.fd (.tcp s) t.flags r
  ((w.setKernel k.1).setErrno k.2).logObs (.ctl (.tcp s) t.fd .mod)

/-- `pd__event_del` for a stream. -/
def pd_eventDel (r : SysRes) : World :=
  let t := w.tcp s
  let k := w.kernel.ctl .del t.fd (.tcp s) t.flags r
  ((w.setKernel k.1).setErrno k.2).logObs (.ctl (.tcp s) t.fd .del)

/-- `stream->event.flags |= PD_POLLIN` or `&= ~PD_POLLIN`. -/
def setPollin (b : Bool) : World :=
  w.setTcp s { w.tcp s with flags := { (w.tcp s).flags with pollin := b } }

/-- `stream->event.flags |= PD_POLLOUT` or `&= ~PD_POLLOUT`. -/
def setPollout (b : Bool) : World :=
  w.setTcp s { w.tcp s with flags := { (w.tcp s).flags with pollout := b } }

/-- `shutdown(stream->fd, SHUT_WR)`. -/
def shutdownWr (r : SysRes) : World := (w.setErrno r).logObs (.shutdown s (w.tcp s).fd)

/-! ## Close and shutdown -/

/-- `pd_tcp_close`. -/
def pdTcpClose (a : Answer) : World × List Item :=
  if (w.tcp s).status = .closed then w.goOn []
  else
    let w := w.setTcp s { w.tcp s with status := .closed }
    -- the results of `epoll_ctl` and `close` are not looked at
    let w := pd_eventDel w s (a.sys 0)
    let fd := (w.tcp s).fd
    let c := w.kernel.close fd (a.sys 1)
    let w := ((w.setKernel c.1).setErrno c.2).logObs (.closed s fd)
    w.goOn [.closeDrain s]

/-- `write_op->cb(write_op, status)` for an operation of the stream's. -/
def callWrite (op : Op) (status : Int) (fs : List Frame) : Option (World × List Item) :=
  match w.op s op with
  | some r =>
    if r.cb then some (w.logObs (.called s op status), .app (.write s op status) :: fs.map .lib)
    else none
  | none => none

/-- The loop of `pd_tcp_close`, which cancels the pending writes, and what follows it. -/
def closeDrain : Option (World × List Item) :=
  match (w.tcp s).writes with
  | op :: rest =>
    let w := w.setTcp s { w.tcp s with writes := rest }
    callWrite w s op PD_ECANCELED [.closeDrain s]
  | [] =>
    -- schedule close callback to the next event loop iteration.
    let w := w.setPendingCloses (w.pendingCloses.push s)
    some ((w.logObs (.closeQueued s)).goOn [])

/-- `pd_tcp_shutdown`. -/
def pdTcpShutdown (a : Answer) : World :=
  if (w.tcp s).status ≠ .active then w
  else
    let w := w.setTcp s { w.tcp s with status := .shutdown }
    -- with writes pending, wait for all of them to finish
    if (w.tcp s).writes = [] then shutdownWr w s (a.sys 0)
    else pd_eventSet (setPollout w s true) s (a.sys 0)

/-! ## Reading -/

/-- `read_size`. -/
def readSize : Nat := 6 * 1024

/-- `stream->on_data(stream, buf, size)`, where `size` of the buffer's bytes are `bytes`. -/
def callOnData (buf : Option Nat) (size : Int) (bytes : List UInt8) (fs : List Frame) :
    Option (World × List Item) :=
  if (w.tcp s).onData then some (w.call (.onData s buf size bytes) fs) else none

/-- `pd__tcp_read` up to the allocator. -/
def pd_tcpRead : World × List Item :=
  if !(w.tcp s).onData then w.goOn [] else w.call (.allocator s) [.readAlloc s]

/-- `pd__tcp_read` with the allocator's buffer; without one it reports and still reads. -/
def readAlloc : Option (World × List Item) :=
  match w.ptr with
  | none => callOnData w s none PD_ENOMEM [] [.readTry s none]
  | some buf => some (w.goOn [.readTry s (some buf)])

/-- The `read` of `pd__tcp_read` and what follows it. -/
def readTry (buf : Option Nat) (a : Answer) : Option (World × List Item) :=
  let fd := (w.tcp s).fd
  match w.kernel.readRes fd buf.isSome readSize (a.sys 0) with
  | .err e =>
    let w := (w.setErrno (.err e)).logObs (.read s fd [])
    if e = EINTR then some (w.goOn [.readTry s buf])
    -- no error, but the application gets its buffer back
    else if e = EAGAIN then callOnData w s buf 0 [] []
    else callOnData w s buf w.pdErrno [] []
  -- the peer has ended
  | .ok 0 => callOnData (w.logObs (.read s fd [])) s buf 0 [] [.close s]
  | .ok (n + 1) =>
    let bytes := (w.kernel.sock fd).rx.take (n + 1)
    let w := (w.setKernel (w.kernel.consume fd (n + 1))).logObs (.read s fd bytes)
    callOnData w s buf (n + 1) bytes []

/-! ## Writing -/

/-- `pd_tcp_write_async`. -/
def pdTcpWriteAsync (op : Op) (a : Answer) : Option (World × List Item) :=
  if (w.tcp s).status ≠ .active then callWrite w s op PD_ECANCELED []
  else
    let w := w.setTcp s { w.tcp s with writes := (w.tcp s).writes ++ [op] }
    if !(w.tcp s).flags.pollout then
      some ((pd_eventSet (setPollout w s true) s (a.sys 1)).goOn [])
    else some (w.goOn [])

/-- `pd_tcp_write` up to its `write`, of an operation as `pd_write_init` and the application left
it. -/
def pdTcpWrite (op : Op) (r : WriteOp) (a : Answer) : Option (World × List Item) :=
  let w := w.setOp s op r
  if (w.tcp s).status ≠ .active then
    if r.cb then some (w.logObs (.refused s op), [.app (.write s op PD_ECANCELED)]) else none
  else
    let w := w.logObs (.accepted s op)
    if (w.tcp s).writes = [] then some (w.goOn [.writeTry s op]) else pdTcpWriteAsync w s op a

/-- The `write` of `pd_tcp_write` and what follows it. -/
def writeTry (op : Op) (a : Answer) : Option (World × List Item) :=
  match w.op s op with
  | none => none
  | some r =>
    let fd := (w.tcp s).fd
    match w.kernel.writeRes fd r.data.length (a.sys 0) with
    | .err e =>
      let w := (w.setErrno (.err e)).logObs (.write s fd op [])
      if e = EINTR then some (w.goOn [.writeTry s op])
      else if e = EAGAIN then pdTcpWriteAsync w s op a
      else callWrite w s op w.pdErrno []
    | .ok written =>
      let w := w.logObs (.write s fd op (r.data.take written))
      -- partial writes
      if written < r.data.length then
        let w := w.setOp s op { r with written := (r.written + written) % 2 ^ 64 }
        pdTcpWriteAsync w s op a
      else callWrite w s op 0 []

/-- `pd__tcp_write` up to its loop. -/
def pd_tcpWrite : World × List Item :=
  -- sometimes we get stale event when stream was closed in the same iteration
  if (w.tcp s).status = .closed then w.goOn [] else w.goOn [.writeLoop s]

/-- A queued operation is finished; its callback may be NULL. -/
def finishWrite (op : Op) (r : WriteOp) : World × List Item :=
  if r.cb then
    (w.logObs (.called s op 0), [.app (.write s op 0), .lib (.writeLoop s)])
  else (w.logObs (.uncalled s op)).goOn [.writeLoop s]

/-- A round of the loop of `pd__tcp_write`, and what follows the loop. -/
def writeLoop (a : Answer) : Option (World × List Item) :=
  match (w.tcp s).writes with
  | op :: rest =>
    match w.op s op with
    | none => none
    | some r =>
      let fd := (w.tcp s).fd
      -- a difference of two `size_t`
      let toWrite := (r.data.length + (2 ^ 64 - r.written % 2 ^ 64)) % 2 ^ 64
      match w.kernel.writeRes fd toWrite (a.sys 0) with
      | .err e =>
        let w := (w.setErrno (.err e)).logObs (.write s fd op [])
        if e = EINTR then some (w.goOn [.writeLoop s])
        else if e = EAGAIN then some (w.goOn [])
        else
          -- the descriptor still waits for `POLLOUT`, with the rest of the queue
          let w := w.setTcp s { w.tcp s with writes := rest }
          callWrite w s op w.pdErrno []
      | .ok written =>
        let w := w.logObs (.write s fd op ((r.data.drop r.written).take written))
        let r := { r with written := (r.written + written) % 2 ^ 64 }
        let w := w.setOp s op r
        if r.written = r.data.length then
          some (finishWrite (w.setTcp s { w.tcp s with writes := rest }) s op r)
        else some (w.goOn [.writeLoop s])
  | [] =>
    -- stop writing
    let w := pd_eventSet (setPollout w s false) s (a.sys 0)
    if (w.tcp s).status = .shutdown then some ((shutdownWr w s (a.sys 1)).goOn [])
    else some (w.goOn [])

/-! ## Events of a stream -/

/-- `pd__tcp_client_io` up to the end of `pd__tcp_read`. -/
def pd_tcpClientIo (ev : Events) : World × List Item :=
  if ev.pollin then
    let r := pd_tcpRead w s
    (r.1, r.2 ++ [.lib (.clientIoRest s ev)])
  else w.goOn [.clientIoRest s ev]

/-- The rest of `pd__tcp_client_io`. -/
def clientIoRest (ev : Events) (a : Answer) : World × List Item :=
  if ev.close then pdTcpClose w s a
  else if ev.pollout then pd_tcpWrite w s
  else w.goOn []

/-- `pd__tcp_connect_io`. -/
def pd_tcpConnectIo (ev : Events) (a : Answer) : World × List Item :=
  -- we got stale event
  if (w.tcp s).status = .closed then w.goOn []
  else if ev.close then
    -- `getsockopt` leaves the error, or 0 when it was fetched before
    let err := match a.sys 0 with
      | .ok e => e
      | .err _ => 0
    let w := w.logObs (.sockError s (w.tcp s).fd)
    if (w.tcp s).onConnect then w.call (.onConnect s (World.pdErrmap err)) [] else w.goOn []
  else if ev.pollout then
    let w := w.setTcp s
      { w.tcp s with
        status := .active, handler := some .clientIo
        flags := { (w.tcp s).flags with pollout := false } }
    let w := pd_eventSet w s (a.sys 0)
    if (w.tcp s).onConnect then w.call (.onConnect s 0) [] else w.goOn []
  else w.goOn []

/-- `pd_tcp_pause`. -/
def pdTcpPause (a : Answer) : World := pd_eventSet (setPollin w s false) s (a.sys 0)

/-- `pd_tcp_resume`. -/
def pdTcpResume (a : Answer) : World := pd_eventSet (setPollin w s true) s (a.sys 0)

/-! ## Opening -/

/-- `pd_tcp_accept`. -/
def pdTcpAccept (fd : Fd) (a : Answer) : World :=
  let w := w.setTcp s
    { w.tcp s with
      fd := fd, status := .active, handler := some .clientIo
      flags := { (w.tcp s).flags with pollin := true } }
  let w := pd_eventAdd (w.logObs (.opened s fd)) s (a.sys 0)
  w.incRefs (.tcp s)

/-- `pd__closesocket` on an error path. -/
def closeQuietly (fd : Fd) (r : SysRes) : World :=
  let c := w.kernel.close fd r
  (w.setKernel c.1).setErrno c.2

/-- `return pd_errno();` -/
def failErrno : World := w.setResult w.pdErrno

/-- `pd__set_nonblocking`: `fcntl` twice, with the two given results. -/
def pd_setNonblocking (r1 r2 : SysRes) : SysRes :=
  match r1 with
  | .ok _ => r2
  | .err e => .err e

/-- `pd_tcp_connect`, with the value it returns. Its system calls are `socket`, `fcntl` twice,
`inet_pton`, `connect`, `close`, and `epoll_ctl`. -/
def pdTcpConnect (onConnect : Bool) (a : Answer) : World :=
  let sock := w.kernel.newSocket (a.sys 0)
  match sock.2 with
  | .err e => failErrno (w.setErrno (.err e))
  | .ok fd =>
    let w := w.setKernel sock.1
    match pd_setNonblocking (a.sys 1) (a.sys 2) with
    | .err e => failErrno (closeQuietly (w.setErrno (.err e)) fd (a.sys 5))
    | .ok _ =>
      match a.sys 3 with
      | .err e => failErrno (closeQuietly (w.setErrno (.err e)) fd (a.sys 5))
      -- no valid address: `errno` is as it was before
      | .ok 0 => failErrno (closeQuietly w fd (a.sys 5))
      | .ok (_ + 1) =>
        -- written before `connect` can fail
        let w := w.setTcp s
          { w.tcp s with
            fd := fd, onConnect := onConnect, handler := some .connectIo, flags := ⟨true, true⟩ }
        let register (w : World) : World :=
          ((pd_eventAdd (w.logObs (.opened s fd)) s (a.sys 6)).incRefs (.tcp s)).setResult 0
        match a.sys 4 with
        | .ok _ => register w
        | .err e =>
          let w := w.setErrno (.err e)
          if e ≠ EINPROGRESS then
            failErrno (closeQuietly (w.logObs (.abandoned s fd)) fd (a.sys 5))
          else register w

end

/-! ## Listeners -/

section
variable (w : World) (l : Lid)

/-- `pd_tcp_server_close`, with the value it returns. -/
def pdTcpServerClose (a : Answer) : World :=
  let fd := (w.server l).fd
  let d := w.kernel.ctl .del fd (.server l) (w.server l).flags (a.sys 0)
  let w := (w.setKernel d.1).logObs (.ctl (.server l) fd .del)
  match d.2 with
  | .err e => (w.setErrno (.err e)).setResult (-1)
  | .ok _ =>
    let c := w.kernel.close fd (a.sys 1)
    let w := w.setKernel c.1
    match c.2 with
    | .err e => (w.setErrno (.err e)).setResult (-1)
    | .ok _ => ((w.logObs (.serverClosed l fd)).decRefs (.server l)).setResult 0

/-- `pnd__tcp_listener_io`. Its system calls are `accept`, `fcntl` twice, and `close`. -/
def pnd_tcpListenerIo (ev : Events) (a : Answer) : Option (World × List Item) :=
  if !ev.pollin then none
  else if (w.server l).status ≠ .active then some (w.goOn [])
  else
    let sock := w.kernel.newSocket (a.sys 0)
    let w := w.logObs (.accept l (w.server l).fd)
    match sock.2 with
    | .err e => some ((w.setErrno (.err e)).goOn [])
    | .ok peer =>
      let w := w.setKernel sock.1
      match pd_setNonblocking (a.sys 1) (a.sys 2) with
      | .err e => some ((closeQuietly (w.setErrno (.err e)) peer (a.sys 3)).goOn [])
      | .ok _ =>
        if (w.server l).onConnection then some (w.call (.onConnection l peer) [])
        -- no handler set, so close socket to avoid fd leak
        else some ((closeQuietly w peer (a.sys 3)).goOn [])

/-- `pd_tcp_listen`, with the value it returns. Its system calls are `socket`, `setsockopt`,
`bind`, `fcntl` twice, `listen`, `close`, and `epoll_ctl`. -/
def pdTcpListen (onConnection : Bool) (a : Answer) : World :=
  let sock := w.kernel.newSocket (a.sys 0)
  match sock.2 with
  | .err e => failErrno (w.setErrno (.err e))
  -- `lfd <= 0`: descriptor 0 is taken for a failure, and stays open
  | .ok 0 => failErrno (w.setKernel sock.1)
  | .ok (n + 1) =>
    let lfd : Fd := n + 1
    let w := w.setKernel sock.1
    let fail (e : Nat) : World := failErrno (closeQuietly (w.setErrno (.err e)) lfd (a.sys 6))
    match a.sys 1, a.sys 2, pd_setNonblocking (a.sys 3) (a.sys 4), a.sys 5 with
    | .err e, _, _, _ => fail e
    | .ok _, .err e, _, _ => fail e
    | .ok _, .ok _, .err e, _ => fail e
    | .ok _, .ok _, .ok _, .err e => fail e
    | .ok _, .ok _, .ok _, .ok _ =>
      let w := w.setServer l
        { w.server l with
          fd := lfd, handler := true, status := .active, onConnection := onConnection
          flags := { (w.server l).flags with pollin := true } }
      let r := w.kernel.ctl .add lfd (.server l) (w.server l).flags (a.sys 7)
      let w := ((w.setKernel r.1).setErrno r.2).logObs (.ctl (.server l) lfd .add)
      -- the result of `epoll_ctl` is not looked at
      let w := match r.2 with
        | .ok _ => w.logObs (.listening l lfd)
        | .err _ => w
      (w.incRefs (.server l)).setResult 0

end

end Pandio
