import Pandio.Heap.Model
import Pandio.Lib.IntrusiveQueue

/- The state of one `pd_io_t` on Unix: the objects the application registers with
   it, the kernel's side of their descriptors, and a log of what the library did
   that can be seen from outside.

   Objects are named by numbers. A name stands for one life of the object, from
   its init function on: a stream that is initialised again, or a write operation
   that is prepared again, is a new name. A write operation or a task is in a queue of
   include/pandio/queue.h once at most, and the queue is the list of its nodes; a stream
   can be closed again while it waits to be called back, so `pending_closes` has its
   links. `size_t` and `uint64_t` are natural numbers with the arithmetic taken modulo
   2^64 where the source computes.

   The kernel's answers are not computed: each system call is given a result, and
   the functions of the first section say what state it has then, and replace a
   result the kernel cannot give (more bytes than were asked for, a new descriptor
   that is already open) by one it can.

   Correspondence (C ↔ Lean):
     `pd_tcp_t`, `pd_tcp_server_t` ↔ `Tcp`, `TcpServer`
     `pd_timer_t`, `pd_write_t`    ↔ `Timer`, `WriteOp`
     `pd_io_t`                     ↔ `World`
     `pd_event_t.flags`            ↔ `Flags`
     `epoll_ctl`, `read`, `write`  ↔ `Kernel.ctl`, `Kernel.readRes`, `Kernel.writeRes` -/
namespace Pandio

/-! ## The kernel -/

/-- A descriptor number. -/
abbrev Fd := Int

/-- The name of a `pd_tcp_t`. -/
abbrev Sid := Nat

/-- The name of a `pd_tcp_server_t`. -/
abbrev Lid := Nat

/-- The name of a `pd_timer_t`. -/
abbrev Tid := Nat

/-- The name of a `pd_write_t`, among those passed to one stream. -/
abbrev Op := Nat

/-- The name of a `pd_task_t`. -/
abbrev Task := Nat

/-- The object whose `pd_event_t` is registered with the poller. -/
inductive Handle where
  | tcp (s : Sid)
  | server (l : Lid)
  | taskSignal
  deriving DecidableEq, Repr

/-- The bits of `event->flags`. -/
structure Flags where
  pollin : Bool
  pollout : Bool
  deriving DecidableEq, Repr

/-- What `epoll_wait` reports of a descriptor. -/
structure Polled where
  epollin : Bool
  epollout : Bool
  epollerr : Bool
  epollhup : Bool
  epollrdhup : Bool
  deriving DecidableEq, Repr

/-- The `unsigned events` a handler is called with. -/
structure Events where
  pollin : Bool
  pollout : Bool
  close : Bool
  deriving DecidableEq, Repr

/-- The translation of `pd_io_run`; the bits for error and hang-up are only told apart by the
kernel. -/
def Polled.events (p : Polled) : Events :=
  { pollin := p.epollin, pollout := p.epollout
    close := p.epollerr || p.epollhup || p.epollrdhup }

/-- The result of a system call: a value, or -1 with `errno`. -/
inductive SysRes where
  | ok (n : Nat)
  | err (errno : Nat)
  deriving DecidableEq, Repr

def SysRes.isOk : SysRes → Bool
  | .ok _ => true
  | .err _ => false

def EINTR : Nat := 4
def EBADF : Nat := 9
def EAGAIN : Nat := 11
def ENOMEM : Nat := 12
def EFAULT : Nat := 14
def EEXIST : Nat := 17
def EMFILE : Nat := 24
def ENOENT : Nat := 2
def EINPROGRESS : Nat := 115
def ECANCELED : Nat := 125

/-- The receive side of a socket. -/
structure Sock where
  /-- Arrived and not yet read. -/
  rx : List UInt8
  /-- The peer's FIN has arrived, after the bytes of `rx`. -/
  fin : Bool
  deriving DecidableEq, Repr

structure Kernel where
  isOpen : Fd → Bool
  /-- The poller's interest list. -/
  interest : Fd → Option (Handle × Flags)
  sock : Fd → Sock
  /-- The monotonic clock in milliseconds. -/
  clock : Nat

/-- The operations of `epoll_ctl`. -/
inductive Ctl where
  | add
  | mod
  | del
  deriving DecidableEq, Repr

namespace Kernel

/-- `epoll_ctl`. -/
def ctl (k : Kernel) (c : Ctl) (fd : Fd) (h : Handle) (f : Flags) (r : SysRes) :
    Kernel × SysRes :=
  if !k.isOpen fd then (k, .err EBADF)
  else
    match c, k.interest fd, r with
    | .add, some _, _ => (k, .err EEXIST)
    | .mod, none, _ => (k, .err ENOENT)
    | .del, none, _ => (k, .err ENOENT)
    | .del, some _, _ => ({ k with interest := Function.update k.interest fd none }, .ok 0)
    | _, _, .err e => (k, .err e)
    | _, _, .ok _ => ({ k with interest := Function.update k.interest fd (some (h, f)) }, .ok 0)

/-- `close`, repeated on `EINTR`: the first call frees the number in any case, so a second one
fails with `EBADF`. -/
def close (k : Kernel) (fd : Fd) (r : SysRes) : Kernel × SysRes :=
  if !k.isOpen fd then (k, .err EBADF)
  else
    ({ k with
        isOpen := Function.update k.isOpen fd false
        interest := Function.update k.interest fd none },
      match r with
      | .ok _ => .ok 0
      | .err e => if e = EINTR then .err EBADF else .err e)

/-- `socket` and `accept`: a number that is not open becomes one. -/
def newSocket (k : Kernel) (r : SysRes) : Kernel × SysRes :=
  match r with
  | .err e => (k, .err e)
  | .ok fd =>
    if k.isOpen fd then (k, .err EMFILE)
    else
      ({ k with
          isOpen := Function.update k.isOpen fd true
          interest := Function.update k.interest fd none
          sock := Function.update k.sock fd { rx := [], fin := false } }, .ok fd)

/-- The result of `read` into `size` bytes of a buffer, which may be NULL; and the bytes read. -/
def readRes (k : Kernel) (fd : Fd) (buf : Bool) (size : Nat) (r : SysRes) : SysRes :=
  if !k.isOpen fd then .err EBADF
  else
    match r with
    | .err e => .err e
    | .ok n =>
      if (k.sock fd).rx = [] then if (k.sock fd).fin then .ok 0 else .err EAGAIN
      else if !buf then .err EFAULT
      else .ok (max 1 (min n (min size (k.sock fd).rx.length)))

/-- The first `n` bytes leave the receive buffer. -/
def consume (k : Kernel) (fd : Fd) (n : Nat) : Kernel :=
  { k with
    sock := Function.update k.sock fd { k.sock fd with rx := (k.sock fd).rx.drop n } }

/-- The result of `write` of `size` bytes. -/
def writeRes (k : Kernel) (fd : Fd) (size : Nat) (r : SysRes) : SysRes :=
  if !k.isOpen fd then .err EBADF
  else
    match r with
    | .err e => .err e
    | .ok n => .ok (min n (min size (2 ^ 63 - 1)))

theorem newSocket_ok {k : Kernel} {r : SysRes} {fd : Nat} (h : (k.newSocket r).2 = .ok fd) :
    k.isOpen fd = false ∧
    (k.newSocket r).1 = { k with
      isOpen := Function.update k.isOpen fd true
      interest := Function.update k.interest fd none
      sock := Function.update k.sock fd { rx := [], fin := false } } := by
  cases r with
  | err e => cases h
  | ok n =>
    by_cases ho : k.isOpen n = true
    · simp [newSocket, ho] at h
    · have hfree : k.isOpen n = false := Bool.eq_false_iff.mpr ho
      simp only [newSocket, hfree, Bool.false_eq_true, if_false] at h
      cases h
      simp [newSocket, hfree]

theorem writeRes_le {k : Kernel} {fd : Fd} {size : Nat} {r : SysRes} {n : Nat}
    (h : k.writeRes fd size r = .ok n) : n ≤ size := by
  unfold writeRes at h
  split at h
  · cases h
  · split at h
    · cases h
    · cases h
      omega

theorem writeRes_err {k : Kernel} {fd : Fd} {size : Nat} {r : SysRes} {e : Nat}
    (h : k.writeRes fd size r = .err e) : e = EBADF ∨ r = .err e := by
  unfold writeRes at h
  split at h
  · cases h
    exact .inl rfl
  · split at h
    · exact .inr h
    · cases h

theorem readRes_le {k : Kernel} {fd : Fd} {buf : Bool} {size : Nat} {r : SysRes} {n : Nat}
    (h1 : 1 ≤ size) (h : k.readRes fd buf size r = .ok n) :
    n ≤ size ∧ n ≤ (k.sock fd).rx.length := by
  unfold readRes at h
  split at h
  · cases h
  · split at h
    · cases h
    · split at h
      · split at h
        · cases h
          omega
        · cases h
      · rename_i hrx
        have := List.length_pos_iff.mpr hrx
        split at h
        · cases h
        · cases h
          omega

end Kernel

/-! ## The objects -/

/-- `enum pd_tcp_status`. -/
inductive TcpStatus where
  | none
  | active
  | shutdown
  | closed
  deriving DecidableEq, Repr

/-- The handlers of a stream's event. -/
inductive TcpHandler where
  | clientIo
  | connectIo
  deriving DecidableEq, Repr

/-- `pd_tcp_t`; a callback field says whether it is set. -/
structure Tcp where
  fd : Fd
  writes : List Op
  flags : Flags
  handler : Option TcpHandler
  onData : Bool
  onClose : Bool
  onConnect : Bool
  status : TcpStatus
  deriving DecidableEq, Repr

/-- `pd_tcp_init`. -/
def pdTcpInit : Tcp :=
  { fd := -1, writes := [], flags := ⟨false, false⟩, handler := .none, onData := false
    onClose := false, onConnect := false, status := .none }

/-- `pd_tcp_server_t`. -/
structure TcpServer where
  fd : Fd
  flags : Flags
  /-- The event's handler is `pnd__tcp_listener_io`. -/
  handler : Bool
  onConnection : Bool
  status : TcpStatus
  deriving DecidableEq, Repr

/-- `pd_tcp_server_init`. -/
def pdTcpServerInit : TcpServer :=
  { fd := -1, flags := ⟨false, false⟩, handler := false, onConnection := false, status := .none }

/-- `pd_timer_t`. -/
structure Timer where
  timeout : Nat
  interval : Nat
  active : Bool
  onTimeout : Bool
  deriving DecidableEq, Repr

/-- `pd_timer_init`. -/
def pdTimerInit : Timer := { timeout := 0, interval := 0, active := false, onTimeout := false }

/-- `pd_write_t`. Its buffer has a `size_t` length. -/
structure WriteOp where
  data : List UInt8
  written : Nat
  cb : Bool
  size_lt : data.length < 2 ^ 64

/-- `pd_write_init`. -/
def pdWriteInit (buf : List UInt8) (cb : Bool) (h : buf.length < 2 ^ 64) : WriteOp :=
  { data := buf, written := 0, cb := cb, size_lt := h }

/-! ## What can be seen from outside -/

/-- The application code the library calls; `main` is what calls the library first. -/
inductive Cb where
  | main
  | write (s : Sid) (op : Op) (status : Int)
  | allocator (s : Sid)
  /-- `on_data(stream, buf, size)`, with the bytes `buf` holds. -/
  | onData (s : Sid) (buf : Option Nat) (size : Int) (bytes : List UInt8)
  | onConnect (s : Sid) (status : Int)
  | onClose (s : Sid)
  | onConnection (l : Lid) (fd : Fd)
  /-- `on_timeout(timer)`, with the value of `timer->timeout`. -/
  | onTimeout (t : Tid) (timeout : Nat)
  | done (k : Task)
  | afterTick
  deriving DecidableEq, Repr

/-- The owner of a unit of `ctx->refs`. -/
inductive Owner where
  | timer (t : Tid)
  | tcp (s : Sid)
  | server (l : Lid)
  | task (k : Task)
  deriving DecidableEq, Repr

/-- An entry of the log. -/
inductive Obs where
  /-- `pd_tcp_write` took the operation, the stream being active. -/
  | accepted (s : Sid) (op : Op)
  /-- `pd_tcp_write` refused the operation and calls it back with `PD_ECANCELED`. -/
  | refused (s : Sid) (op : Op)
  /-- An accepted operation is called back. -/
  | called (s : Sid) (op : Op) (status : Int)
  /-- An accepted operation without a callback is finished. -/
  | uncalled (s : Sid) (op : Op)
  /-- A callback other than a write operation's starts, with the value of `ctx->now`. -/
  | cb (k : Cb) (now : Nat)
  /-- `write(fd, …)` for a stream, with the bytes the kernel took. -/
  | write (s : Sid) (fd : Fd) (op : Op) (bytes : List UInt8)
  | read (s : Sid) (fd : Fd) (bytes : List UInt8)
  | shutdown (s : Sid) (fd : Fd)
  /-- `getsockopt(fd, SOL_SOCKET, SO_ERROR, …)`. -/
  | sockError (s : Sid) (fd : Fd)
  /-- `epoll_ctl` for a handle. -/
  | ctl (h : Handle) (fd : Fd) (c : Ctl)
  | accept (l : Lid) (fd : Fd)
  /-- `pd_tcp_accept` gave the stream a descriptor, or `pd_tcp_connect` gave it one and goes on to
  register it. -/
  | opened (s : Sid) (fd : Fd)
  /-- `pd_tcp_connect` gave the stream a descriptor, fails, and closes it. -/
  | abandoned (s : Sid) (fd : Fd)
  /-- `pd_tcp_close` closed the stream's descriptor. -/
  | closed (s : Sid) (fd : Fd)
  /-- `pd_tcp_close` has queued the stream on `pending_closes`, and returns. -/
  | closeQueued (s : Sid)
  /-- `pd_tcp_listen` has registered the listener's descriptor. -/
  | listening (l : Lid) (fd : Fd)
  /-- `pd_tcp_server_close` has closed the listener's descriptor. -/
  | serverClosed (l : Lid) (fd : Fd)
  | timerStart (t : Tid)
  | timerStop (t : Tid)
  | refInc (o : Owner)
  | refDec (o : Owner)
  deriving DecidableEq, Repr

/-- `pd_io_t` with everything the library reaches from it. -/
structure World where
  now : Nat
  refs : Nat
  timers : Heap Tid
  timer : Tid → Timer
  tcp : Sid → Tcp
  server : Lid → TcpServer
  /-- The operations passed to `pd_tcp_write` of a stream so far. -/
  op : Sid → Op → Option WriteOp
  pendingCloses : LinkedQueue Sid
  finishedTasks : List Task
  /-- The tasks of this context in the thread pool. -/
  poolTasks : List Task
  /-- The tasks that were submitted and are not done, and whether they have a `done` callback. -/
  task : Task → Option Bool
  afterTick : Bool
  kernel : Kernel
  /-- The descriptor of `task_signal`, and whether it is readable. -/
  signalFd : Fd
  signaled : Bool
  errno : Nat
  /-- The pointer the allocator returned last. -/
  ptr : Option Nat
  /-- The `int` the application's last call returned. -/
  result : Int
  log : List Obs

namespace World

/-! ## Updates -/

def logObs (w : World) (o : Obs) : World := { w with log := w.log ++ [o] }

def setTcp (w : World) (s : Sid) (r : Tcp) : World := { w with tcp := Function.update w.tcp s r }

def setServer (w : World) (l : Lid) (r : TcpServer) : World :=
  { w with server := Function.update w.server l r }

def setTimer (w : World) (t : Tid) (r : Timer) : World :=
  { w with timer := Function.update w.timer t r }

def setOp (w : World) (s : Sid) (o : Op) (r : WriteOp) : World :=
  { w with op := Function.update w.op s (Function.update (w.op s) o (some r)) }

def setKernel (w : World) (k : Kernel) : World := { w with kernel := k }

def setRefs (w : World) (n : Nat) : World := { w with refs := n }

def setTimers (w : World) (h : Heap Tid) : World := { w with timers := h }

def setNow (w : World) (n : Nat) : World := { w with now := n }

def setPendingCloses (w : World) (q : LinkedQueue Sid) : World := { w with pendingCloses := q }

/-- The queues of tasks, and whether `task_signal` is readable. -/
def setTasks (w : World) (pool finished : List Task) (signaled : Bool) : World :=
  { w with poolTasks := pool, finishedTasks := finished, signaled := signaled }

/-- A task is submitted. -/
def addTask (w : World) (k : Task) (done : Bool) : World :=
  { w with task := Function.update w.task k (some done), poolTasks := w.poolTasks ++ [k] }

/-- A task is the application's again. -/
def dropTask (w : World) (k : Task) : World := { w with task := Function.update w.task k none }

def setAfterTick (w : World) (b : Bool) : World := { w with afterTick := b }

def setPtr (w : World) (p : Option Nat) : World := { w with ptr := p }

/-- `return n;` -/
def setResult (w : World) (n : Int) : World := { w with result := n }

/-- `ctx->refs++`. -/
def incRefs (w : World) (o : Owner) : World :=
  (w.setRefs ((w.refs + 1) % 2 ^ 64)).logObs (.refInc o)

/-- `ctx->refs--`. -/
def decRefs (w : World) (o : Owner) : World :=
  (w.setRefs (if w.refs = 0 then 2 ^ 64 - 1 else w.refs - 1)).logObs (.refDec o)

/-- `pd_errno`: errors are negative. -/
def pdErrmap (err : Nat) : Int := -(err : Int)

def pdErrno (w : World) : Int := pdErrmap w.errno

/-- `errno` after a call with this result. -/
def setErrno (w : World) (r : SysRes) : World :=
  { w with
    errno := match r with
      | .ok _ => w.errno
      | .err e => e }

end World

/-! ## The call stack -/

/-- What is left to do of a library function: where it stands when it calls the application, or
is about to make a system call. -/
inductive Frame where
  /-- `pd_tcp_close` from its loop on. -/
  | closeDrain (s : Sid)
  /-- `pd_tcp_close` from its beginning, called by the library. -/
  | close (s : Sid)
  /-- `pd__tcp_read` after the allocator. -/
  | readAlloc (s : Sid)
  /-- `pd__tcp_read` from `read` on. -/
  | readTry (s : Sid) (buf : Option Nat)
  /-- `pd__tcp_client_io` after `pd__tcp_read`. -/
  | clientIoRest (s : Sid) (ev : Events)
  /-- `pd_tcp_write` from `write` on. -/
  | writeTry (s : Sid) (op : Op)
  /-- `pd__tcp_write` from its loop on. -/
  | writeLoop (s : Sid)
  /-- `pev->handler(pev, pevents)`. -/
  | dispatch (h : Handle) (ev : Events)
  /-- `pd_timers_run` at the head of its loop. -/
  | timersRun
  /-- `pd_timers_run` after the callback of `min`. -/
  | timersRearm (min : Tid)
  /-- `pd__tcp_pending_close` at the head of its loop. -/
  | pendingClose
  /-- `pd__tcp_pending_close` after `on_close`. -/
  | pendingCloseDec (s : Sid)
  /-- `pd__task_done` at the head of its second loop. -/
  | taskDone (tasksDone : List Task)
  /-- `pd__task_done` after `done`. -/
  | taskDoneDec (k : Task) (tasksDone : List Task)
  /-- `pd_io_run` at the head of its loop. -/
  | ioRun (timeout : Int)
  /-- `pd_io_run` from the `after_tick` hook on. -/
  | ioAfterTick
  /-- `pd_io_run` at the end of its loop's body. -/
  | ioNext
  deriving DecidableEq, Repr

/-- An entry of the call stack. -/
inductive Item where
  | lib (f : Frame)
  | app (k : Cb)
  deriving DecidableEq, Repr

/-- What the kernel answers during one step: the results of the system calls in the order in which
the step makes them, and the events of a poll. -/
structure Answer where
  sys : Nat → SysRes
  events : List (Fd × Polled)
  /-- `errno` is positive after a failed call. -/
  errno_pos : ∀ i e, sys i = .err e → 0 < e

/-- The library goes on with `fs`. -/
def World.goOn (w : World) (fs : List Frame) : World × List Item := (w, fs.map .lib)

/-- The library calls the application, and goes on with `fs` afterwards. -/
def World.call (w : World) (k : Cb) (fs : List Frame) : World × List Item :=
  (w.logObs (.cb k w.now), .app k :: fs.map .lib)

end Pandio
