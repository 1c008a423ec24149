import Pandio.Iocp.Tcp
import Pandio.Lib.Reach

/- The loop of src/sys/event_iocp.c, pd__tcp_pending_close of src/internal.c, the calls
   of the application and the kernel's side of the sockets, as one machine. Timers,
   tasks and listeners appear as calls of the application, and as their units of
   `ctx->refs`.

   Correspondence (C ↔ Lean):
     `pd_io_run`               ↔ `pdIoRun`, `ioRun`, `ioAfterTick`, `ioNext`
     `ev->handler(ev)`         ↔ `dispatch`
     `pd__tcp_pending_close`   ↔ `pd_tcpPendingClose`, `pendingCloseDec` -/
namespace Pandio.Iocp

section
variable (w : World)

/-! ## The loop -/

/-- `pd_timers_run`; which timers are due is not modelled here. -/
def timersRun (a : Answer) : World × List Item :=
  if a.due then w.call .other [.timersRun] else w.goOn []

/-- `pd__tcp_pending_close` at the head of its loop. -/
def pd_tcpPendingClose : Option (World × List Item) :=
  if w.pendingCloses.queueEmpty then some (w.goOn [])
  else
    w.pendingCloses.queuePop.map fun (s, q) =>
      let w := (w.setPendingCloses q).logObs (.popped s)
      if (w.tcp s).onClose then w.call (.onClose s) [.pendingCloseDec s]
      else w.goOn [.pendingCloseDec s]

/-- The rest of the round. -/
def pendingCloseDec (s : Sid) : World × List Item :=
  (w.decRefs.logObs (.refDec s)).goOn [.pendingClose]

def ENTRIES_MAX : Nat := 128

/-- The head of the loop of `pd_io_run` with `GetQueuedCompletionStatusEx`, which gives nothing
after its timeout. -/
def ioRun : World × List Item :=
  if w.refs = 0 then w.goOn []
  else
    (w.setPort (w.port.drop ENTRIES_MAX)).goOn ((w.port.take ENTRIES_MAX).map .dispatch ++
      [.timersRun, .pendingClose, .ioAfterTick, .ioNext])

/-- The `after_tick` hook. -/
def ioAfterTick : World × List Item :=
  if w.afterTick then w.call .afterTick [] else w.goOn []

/-- The end of the loop's body. -/
def ioNext : World × List Item := w.goOn [.ioRun]

/-- `pd_io_run`. -/
def pdIoRun : World × List Item := w.goOn [.ioRun]

/-- `ev->handler(ev)`. -/
def dispatch (p : Packet) : Option (World × List Item) :=
  match p with
  | .recv s r => pd_tcpReadIo w s r
  | .send s op => some (pd_tcpWriteIo w s op)
  | .connect s status => pd_tcpConnectIo w s status

/-- The next step of the library. -/
def exec (f : Frame) (a : Answer) : Option (World × List Item) :=
  match f with
  | .postRecv s => postRecv w s a
  | .readIoRest s => readIoRest w s
  | .writeIoRest s => writeIoRest w s
  | .connectIoRest s => some (connectIoRest w s)
  | .dispatch p => dispatch w p
  | .timersRun => some (timersRun w a)
  | .pendingClose => pd_tcpPendingClose w
  | .pendingCloseDec s => some (pendingCloseDec w s)
  | .ioRun => some (ioRun w)
  | .ioAfterTick => some (ioAfterTick w)
  | .ioNext => some (ioNext w)

end

/-! ## The application -/

/-- A call of the application. -/
inductive Call where
  | tcpAccept (s : Sid)
  | tcpConnect (s : Sid) (onConnect : Bool)
  | tcpWrite (s : Sid) (op : Op) (r : WriteOp)
  | tcpClose (s : Sid)
  | tcpShutdown (s : Sid)
  | tcpPause (s : Sid)
  | tcpResume (s : Sid)
  /-- A timer is started, a task submitted or a listener opened. -/
  | hold
  /-- A timer is stopped or runs out, or a task is done. -/
  | release
  | ioRun
  | setOnData (s : Sid) (b : Bool)
  | setOnClose (s : Sid) (b : Bool)
  | setAfterTick (b : Bool)

/-- The application's next call, up to the first place where the library calls back. A write
operation is named anew for each call, and a stream that is initialised again is another stream. -/
def api (w : World) (c : Call) (a : Answer) : Option (World × List Item) :=
  match c with
  | .tcpAccept s => pdTcpAccept w s
  | .tcpConnect s onConnect => some ((pdTcpConnect w s onConnect a).goOn [])
  | .tcpWrite s op r => if w.op s op = none then pdTcpWrite w s op r a else none
  | .tcpClose s => (pdTcpClose (w.logObs (.close s)) s).map (·.goOn [])
  | .tcpShutdown s => some ((pdTcpShutdown w s).goOn [])
  | .tcpPause s => some ((pdTcpPause (w.logObs (.paused s)) s).goOn [])
  | .tcpResume s => pdTcpResume (w.logObs (.resumed s)) s
  | .hold => some ((w.incRefs.setOthers (w.others + 1)).goOn [])
  | .release =>
    if w.others = 0 then none
    else some ((w.decRefs.setOthers (w.others - 1)).goOn [])
  | .ioRun => some (pdIoRun w)
  | .setOnData s b => some ((w.setTcp s { w.tcp s with onData := b }).goOn [])
  | .setOnClose s b => some ((w.setTcp s { w.tcp s with onClose := b }).goOn [])
  | .setAfterTick b => some ((w.setAfterTick b).goOn [])

/-! ## The kernel -/

/-- What the kernel does by itself. -/
inductive Env where
  /-- Bytes arrive on the stream's socket. -/
  | arrive (s : Sid) (bytes : List UInt8)
  | peerFin (s : Sid)
  /-- The oldest receive gets up to `n` bytes, or the end of the stream. -/
  | recvDone (s : Sid) (n : Nat)
  /-- The oldest receive fails. -/
  | recvFail (s : Sid)
  /-- A send ends. -/
  | sendDone (s : Sid) (op : Op)
  /-- `ConnectEx` ends, with 0 or an error. -/
  | connectDone (s : Sid) (status : Int)
  /-- An operation on a socket whose handle the stream has lost ends with this packet. -/
  | leftDone (p : Packet)
  deriving DecidableEq, Repr

/-- The oldest receive of the stream ends. -/
def World.endRecv (w : World) (s : Sid) (bytes : List UInt8) (st : RecvStatus) : Option World :=
  let k := w.sock s
  match k.recvs with
  | [] => none
  | buf :: rest =>
    some ((w.setSock s { k with recvs := rest, taken := k.taken + bytes.length }).setPort
      (w.port ++ [.recv s ⟨buf, bytes, st⟩]))

/-- How an operation may end that nothing cancels. -/
def Packet.Ends : Packet → Prop
  | .recv _ r =>
    r.bytes.length ≤ allocSize ∧ r.status ≠ .aborted ∧ (r.status = .failed → r.bytes = [])
  | .send _ _ => True
  | .connect _ status => status ≤ 0

instance : (p : Packet) → Decidable p.Ends
  | .recv _ _ => inferInstanceAs (Decidable (_ ∧ _ ∧ _))
  | .send _ _ => .isTrue trivial
  | .connect _ _ => inferInstanceAs (Decidable (_ ≤ _))

def env (w : World) (e : Env) : Option World :=
  match e with
  | .arrive s bytes =>
    let k := w.sock s
    if k.isOpen && k.connected && !k.fin then
      some (w.setSock s { k with arrived := k.arrived ++ bytes })
    else none
  | .peerFin s =>
    let k := w.sock s
    if k.isOpen && k.connected then some (w.setSock s { k with fin := true }) else none
  | .recvDone s n =>
    let k := w.sock s
    if k.rx ≠ [] then w.endRecv s (k.rx.take (max 1 (min n allocSize))) .success
    else if k.fin then w.endRecv s [] .success
    else none
  | .recvFail s => w.endRecv s [] .failed
  | .sendDone s op =>
    let k := w.sock s
    if op ∈ k.sends then
      some ((w.setSock s { k with sends := k.sends.erase op }).setPort (w.port ++ [.send s op]))
    else none
  | .connectDone s status =>
    let k := w.sock s
    if k.connecting && decide (status ≤ 0) then
      some ((w.setSock s { k with connecting := false, connected := decide (status = 0) }).setPort
        (w.port ++ [.connect s status]))
    else none
  | .leftDone p =>
    let k := w.sock p.stream
    if p.pending ∈ k.left ∧ p.Ends then
      some ((w.setSock p.stream { k with left := k.left.erase p.pending }).setPort (w.port ++ [p]))
    else none

/-! ## The machine -/

/-- A configuration: the state, and the call stack with its top first. -/
structure Cfg where
  world : World
  stack : List Item

/-- What happens next. -/
inductive Act where
  | lib (a : Answer)
  | api (c : Call) (a : Answer)
  /-- The callback returns, an allocator with its buffer. -/
  | ret (ptr : Option Nat)
  | env (e : Env)

/-- One step. The library runs when it is on top of the stack, the application when it is; `none`
is a step that cannot be taken, or one that ends the process. -/
def step (c : Cfg) (x : Act) : Option Cfg :=
  match x, c.stack with
  | .lib a, .lib f :: rest => (exec c.world f a).map fun r => ⟨r.1, r.2 ++ rest⟩
  | .api k a, .app cb :: rest => (api c.world k a).map fun r => ⟨r.1, r.2 ++ .app cb :: rest⟩
  | .ret ptr, .app cb :: rest =>
    if cb = .main then none else some ⟨c.world.setPtr ptr, rest⟩
  | .env e, stack => (env c.world e).map (⟨·, stack⟩)
  | _, _ => none

/-- What a step is: the library's, the application's, a return, or the kernel's. -/
theorem step_cases {c c' : Cfg} {x : Act} (h : step c x = some c') :
    (∃ a f rest r, x = .lib a ∧ c.stack = .lib f :: rest ∧ exec c.world f a = some r ∧
      c' = ⟨r.1, r.2 ++ rest⟩) ∨
    (∃ k a cb rest r, x = .api k a ∧ c.stack = .app cb :: rest ∧ api c.world k a = some r ∧
      c' = ⟨r.1, r.2 ++ .app cb :: rest⟩) ∨
    (∃ ptr cb rest, x = .ret ptr ∧ c.stack = .app cb :: rest ∧ cb ≠ .main ∧
      c' = ⟨c.world.setPtr ptr, rest⟩) ∨
    ∃ e w', x = .env e ∧ env c.world e = some w' ∧ c' = ⟨w', c.stack⟩ := by
  unfold step at h
  split at h
  · rename_i a f rest hst
    obtain ⟨r, hr, rfl⟩ := Option.map_eq_some_iff.mp h
    exact .inl ⟨a, f, rest, r, rfl, hst, hr, rfl⟩
  · rename_i k a cb rest hst
    obtain ⟨r, hr, rfl⟩ := Option.map_eq_some_iff.mp h
    exact .inr (.inl ⟨k, a, cb, rest, r, rfl, hst, hr, rfl⟩)
  · rename_i ptr cb rest hst
    split at h
    · cases h
    · rename_i hcb
      cases h
      exact .inr (.inr (.inl ⟨ptr, cb, rest, rfl, hst, hcb, rfl⟩))
  · rename_i e
    obtain ⟨w', hw, rfl⟩ := Option.map_eq_some_iff.mp h
    exact .inr (.inr (.inr ⟨e, w', rfl, hw, rfl⟩))
  · cases h

/-- The state after `pd_io_init`, with every stream initialised. -/
def World.init : World :=
  { refs := 0, others := 0, tcp := fun _ => pdTcpInit, sock := fun _ => .none
    op := fun _ _ => none, pendingCloses := .queueInit, afterTick := false, port := []
    ptr := none, result := 0, log := [] }

/-- Where a run starts. -/
def Cfg.start : Cfg := { world := .init, stack := [.app .main] }

/-- The configurations of the runs whose steps all meet `ok`. -/
abbrev Run (ok : Cfg → Act → Prop) : Cfg → Prop := Machine.Reach step ok (· = Cfg.start)

/-! ## Concrete runs -/

/-- An answer in which every call gives `r`. -/
def Answer.all (r : WsaRes) (h : ∀ e, r = .err e → e < 0) : Answer :=
  { sys := fun _ => r, lastError := 0, due := false, err_neg := fun _ => h, lastError_le := le_rfl }

/-- Every call succeeds at once. -/
def Answer.ok (n : Nat) : Answer := .all (.ok n) fun _ h => by cases h

/-- Every call is pending. -/
def Answer.pending : Answer := .all .pending fun _ h => by cases h

end Pandio.Iocp
