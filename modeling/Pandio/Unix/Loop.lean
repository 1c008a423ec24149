import Pandio.Lib.Reach
import Pandio.Unix.Timers
import Pandio.Unix.Tcp

/- The loop of src/sys/event_epoll.c with what it drives, and the machine that runs
   it. A configuration is the state and the call stack; the application is not
   modelled but free: whenever it is on top of the stack it may call any function
   of the API with any arguments, or return. So a run of the machine is any
   interleaving of API calls, nested ones included, events and answers of the
   kernel.

   The thread pool is seen from this context only: `pd_task_submit` accepts a task
   or refuses it, and an accepted task is finished at some later time by a worker.

   Correspondence (C ↔ Lean):
     `pd__tcp_pending_close` ↔ `pd_tcpPendingClose`, `pendingCloseDec`
     `pd__notifier_io`       ↔ `pd_notifierIo`
     `pd__task_done`         ↔ `pd_taskDone`, its second loop `taskDone`, `taskDoneDec`
     `pd_task_submit`        ↔ `pdTaskSubmit`
     `pd_io_run`             ↔ `pdIoRun`, its loop `ioRun`, `ioAfterTick`, `ioNext` -/
namespace Pandio

section
variable (w : World)

/-! ## Pending closes and finished tasks -/

/-- A round of the loop of `pd__tcp_pending_close`, up to `on_close`. -/
def pd_tcpPendingClose : World × List Item :=
  match w.pendingCloses.pop with
  -- the queue is empty
  | none => w.goOn []
  | some (s, rest) =>
    let w := w.setPendingCloses rest
    if (w.tcp s).onClose then w.call (.onClose s) [.pendingCloseDec s]
    else w.goOn [.pendingCloseDec s]

/-- The rest of the round. -/
def pendingCloseDec (s : Sid) : World × List Item := (w.decRefs (.tcp s)).goOn [.pendingClose]

/-- `pd__task_done` up to its second loop: the finished tasks move to a local queue. -/
def pd_taskDone : World × List Item :=
  (w.setTasks w.poolTasks [] w.signaled).goOn [.taskDone w.finishedTasks]

/-- A round of the second loop of `pd__task_done`, up to the callback. -/
def taskDone (tasksDone : List Task) : World × List Item :=
  match tasksDone with
  | [] => w.goOn []
  | k :: rest =>
    if w.task k = some true then (w.dropTask k).call (.done k) [.taskDoneDec k rest]
    else (w.dropTask k).goOn [.taskDoneDec k rest]

/-- The rest of the round. -/
def taskDoneDec (k : Task) (tasksDone : List Task) : World × List Item :=
  (w.decRefs (.task k)).goOn [.taskDone tasksDone]

/-- `pd__notifier_io` of `task_signal`, whose handler is `pd__task_done`. -/
def pd_notifierIo (ev : Events) (a : Answer) : World × List Item :=
  if !ev.pollin then w.goOn []
  else
    match a.sys 0 with
    | .err e =>
      let w := w.setErrno (.err e)
      if e = EINTR then w.goOn [.dispatch .taskSignal ev] else w.goOn []
    | .ok _ =>
      -- the read takes all notifications at once
      if w.signaled then pd_taskDone (w.setTasks w.poolTasks w.finishedTasks false)
      else (w.setErrno (.err EAGAIN)).goOn []

/-- `pd_task_submit`, with the value it returns; the pool's state decides which. -/
def pdTaskSubmit (k : Task) (done : Bool) (a : Answer) : World :=
  match a.sys 0 with
  | .err _ => w.setResult PD_ECANCELED
  | .ok _ => ((w.incRefs (.task k)).addTask k done).setResult 0

/-! ## The loop -/

/-- The events of a poll: those of registered descriptors, with the bits asked for. -/
def polledEvents (k : Kernel) (events : List (Fd × Polled)) : List (Handle × Events) :=
  events.filterMap fun e =>
    (k.interest e.1).map fun r =>
      (r.1, { e.2 with
        epollin := e.2.epollin && r.2.pollin, epollout := e.2.epollout && r.2.pollout }.events)

def MAX_EVENTS : Nat := 1024

/-- The head of the loop of `pd_io_run` with its `epoll_wait`, whose failure ends the process. -/
def ioRun (timeout : Int) (a : Answer) : Option (World × List Item) :=
  if w.refs = 0 then some (w.goOn [])
  else
    match a.sys 0 with
    | .err e =>
      -- interrupted by signal
      if e = EINTR then some ((w.setErrno (.err e)).goOn [.ioRun timeout]) else none
    | .ok _ =>
      let w := w.setNow w.kernel.clock
      -- what is over stays for the next poll
      let events := (polledEvents w.kernel a.events).take MAX_EVENTS
      some (w.goOn (events.map (fun e => .dispatch e.1 e.2) ++
        [.timersRun, .pendingClose, .ioAfterTick, .ioNext]))

/-- The `after_tick` hook. -/
def ioAfterTick : World × List Item :=
  if w.afterTick then w.call .afterTick [] else w.goOn []

/-- The end of the loop's body. -/
def ioNext : World × List Item := w.goOn [.ioRun (pdTimersNext w)]

/-- `pd_io_run`. -/
def pdIoRun : World × List Item := w.goOn [.ioRun (pdTimersNext w)]

/-! ## The machine -/

/-- `pev->handler(pev, pevents)`. -/
def dispatch (h : Handle) (ev : Events) (a : Answer) : Option (World × List Item) :=
  match h with
  | .tcp s =>
    match (w.tcp s).handler with
    | some .clientIo => some (pd_tcpClientIo w s ev)
    | some .connectIo => some (pd_tcpConnectIo w s ev a)
    | none => none
  | .server l => if (w.server l).handler then pnd_tcpListenerIo w l ev a else none
  | .taskSignal => some (pd_notifierIo w ev a)

/-- The next step of the library. -/
def exec (f : Frame) (a : Answer) : Option (World × List Item) :=
  match f with
  | .closeDrain s => closeDrain w s
  | .close s => some (pdTcpClose w s a)
  | .readAlloc s => readAlloc w s
  | .readTry s buf => readTry w s buf a
  | .clientIoRest s ev => some (clientIoRest w s ev a)
  | .writeTry s op => writeTry w s op a
  | .writeLoop s => writeLoop w s a
  | .dispatch h ev => dispatch w h ev a
  | .timersRun => pdTimersRun w
  | .timersRearm min => pdTimersRearm w min
  | .pendingClose => some (pd_tcpPendingClose w)
  | .pendingCloseDec s => some (pendingCloseDec w s)
  | .taskDone tasksDone => some (taskDone w tasksDone)
  | .taskDoneDec k tasksDone => some (taskDoneDec w k tasksDone)
  | .ioRun timeout => ioRun w timeout a
  | .ioAfterTick => some (ioAfterTick w)
  | .ioNext => some (ioNext w)

end

/-- A call of the application. -/
inductive Call where
  | tcpAccept (s : Sid) (fd : Fd)
  | tcpConnect (s : Sid) (onConnect : Bool)
  | tcpWrite (s : Sid) (op : Op) (r : WriteOp)
  | tcpClose (s : Sid)
  | tcpShutdown (s : Sid)
  | tcpPause (s : Sid)
  | tcpResume (s : Sid)
  | tcpListen (l : Lid) (onConnection : Bool)
  | tcpServerClose (l : Lid)
  | timerStart (t : Tid) (cb : Bool) (timeout : Nat)
  | timerRepeat (t : Tid) (cb : Bool) (interval : Nat)
  | timerStop (t : Tid)
  | timersRun
  | timersNext
  | taskSubmit (k : Task) (done : Bool)
  | ioRun
  | setOnData (s : Sid) (b : Bool)
  | setOnClose (s : Sid) (b : Bool)
  | setAfterTick (b : Bool)
  | setErrno (e : Nat)

/-- The application's next call, up to the first place where the library waits for an answer or
calls back. A write operation is named anew for each submission, and a task is not submitted
again before it is done. -/
def api (w : World) (c : Call) (a : Answer) : Option (World × List Item) :=
  match c with
  | .tcpAccept s fd => some ((pdTcpAccept w s fd a).goOn [])
  | .tcpConnect s onConnect => some ((pdTcpConnect w s onConnect a).goOn [])
  | .tcpWrite s op r => if w.op s op = none then pdTcpWrite w s op r a else none
  | .tcpClose s => some (pdTcpClose w s a)
  | .tcpShutdown s => some ((pdTcpShutdown w s a).goOn [])
  | .tcpPause s => some ((pdTcpPause w s a).goOn [])
  | .tcpResume s => some ((pdTcpResume w s a).goOn [])
  | .tcpListen l onConnection => some ((pdTcpListen w l onConnection a).goOn [])
  | .tcpServerClose l => some ((pdTcpServerClose w l a).goOn [])
  | .timerStart t cb timeout =>
    (pdTimerStart (w.logObs (.timerStart t)) t cb (timeout % 2 ^ 64)).map (·.goOn [])
  | .timerRepeat t cb interval =>
    (pdTimerRepeat (w.logObs (.timerStart t)) t cb (interval % 2 ^ 64)).map (·.goOn [])
  | .timerStop t => (pdTimerStop w t).map fun w => (w.logObs (.timerStop t)).goOn []
  | .timersRun => some (w.goOn [.timersRun])
  | .timersNext => some ((w.setResult (pdTimersNext w)).goOn [])
  | .taskSubmit k done => if w.task k = none then some ((pdTaskSubmit w k done a).goOn []) else none
  | .ioRun => some (pdIoRun w)
  | .setOnData s b => some ((w.setTcp s { w.tcp s with onData := b }).goOn [])
  | .setOnClose s b => some ((w.setTcp s { w.tcp s with onClose := b }).goOn [])
  | .setAfterTick b => some ((w.setAfterTick b).goOn [])
  | .setErrno e => some ((w.setErrno (.err e)).goOn [])

/-- What happens around the loop's thread. -/
inductive Env where
  /-- Bytes arrive on a socket. -/
  | arrive (fd : Fd) (bytes : List UInt8)
  | peerFin (fd : Fd)
  /-- Time passes. -/
  | tick (n : Nat)
  /-- A worker has finished a task and signals. -/
  | workDone (k : Task)
  /-- The process opens or closes a descriptor that is not the library's. -/
  | openFd (fd : Fd)
  | closeFd (fd : Fd)
  deriving DecidableEq, Repr

def env (w : World) (e : Env) : Option World :=
  let k := w.kernel
  match e with
  | .arrive fd bytes =>
    if k.isOpen fd && !(k.sock fd).fin then
      some (w.setKernel { k with
        sock := Function.update k.sock fd { k.sock fd with rx := (k.sock fd).rx ++ bytes } })
    else none
  | .peerFin fd =>
    if k.isOpen fd then
      some (w.setKernel { k with
        sock := Function.update k.sock fd { k.sock fd with fin := true } })
    else none
  | .tick n => if k.clock + n < 2 ^ 64 then some (w.setKernel { k with clock := k.clock + n }) else none
  | .workDone t =>
    if t ∈ w.poolTasks then
      some (w.setTasks (w.poolTasks.erase t) (w.finishedTasks ++ [t]) true)
    else none
  | .openFd fd => if 0 ≤ fd then some (w.setKernel (k.newSocket (.ok fd.toNat)).1) else none
  | .closeFd fd => some (w.setKernel (k.close fd (.ok 0)).1)

/-- A configuration: the state, and the call stack with its top first. -/
structure Cfg where
  world : World
  stack : List Item

/-- What happens next. -/
inductive Act where
  | lib (a : Answer)
  | api (c : Call) (a : Answer)
  /-- The callback returns, an allocator with its buffer. -/
  | ret (ptr : Option Nat)
  | env (e : Env)

/-- One step. The library runs when it is on top of the stack, the application when it is; `none`
is a step that cannot be taken, or one that ends the process. -/
def step (c : Cfg) (x : Act) : Option Cfg :=
  match x, c.stack with
  | .lib a, .lib f :: rest => (exec c.world f a).map fun r => ⟨r.1, r.2 ++ rest⟩
  | .api k a, .app cb :: rest => (api c.world k a).map fun r => ⟨r.1, r.2 ++ .app cb :: rest⟩
  | .ret ptr, .app cb :: rest =>
    if cb = .main then none else some ⟨c.world.setPtr ptr, rest⟩
  | .env e, stack => (env c.world e).map (⟨·, stack⟩)
  | _, _ => none

/-- What a step is: the library's, the application's, a return, or one around the thread. -/
theorem step_cases {c c' : Cfg} {x : Act} (h : step c x = some c') :
    (∃ a f rest r, x = .lib a ∧ c.stack = .lib f :: rest ∧ exec c.world f a = some r ∧
      c' = ⟨r.1, r.2 ++ rest⟩) ∨
    (∃ k a cb rest r, x = .api k a ∧ c.stack = .app cb :: rest ∧ api c.world k a = some r ∧
      c' = ⟨r.1, r.2 ++ .app cb :: rest⟩) ∨
    (∃ ptr cb rest, x = .ret ptr ∧ c.stack = .app cb :: rest ∧ cb ≠ .main ∧
      c' = ⟨c.world.setPtr ptr, rest⟩) ∨
    ∃ e w', x = .env e ∧ env c.world e = some w' ∧ c' = ⟨w', c.stack⟩ := by
  unfold step at h
  split at h
  · rename_i a f rest hst
    obtain ⟨r, hr, rfl⟩ := Option.map_eq_some_iff.mp h
    exact .inl ⟨a, f, rest, r, rfl, hst, hr, rfl⟩
  · rename_i k a cb rest hst
    obtain ⟨r, hr, rfl⟩ := Option.map_eq_some_iff.mp h
    exact .inr (.inl ⟨k, a, cb, rest, r, rfl, hst, hr, rfl⟩)
  · rename_i ptr cb rest hst
    split at h
    · cases h
    · rename_i hcb
      cases h
      exact .inr (.inr (.inl ⟨ptr, cb, rest, rfl, hst, hcb, rfl⟩))
  · rename_i e
    obtain ⟨w', hw, rfl⟩ := Option.map_eq_some_iff.mp h
    exact .inr (.inr (.inr ⟨e, w', rfl, hw, rfl⟩))
  · cases h

/-- What is on top of the stack is ended by a step of its own. -/
theorem step_ends {c c' : Cfg} {x : Act} {f : Frame} {rest : List Item}
    (hst : c.stack = .lib f :: rest) (hst' : c'.stack = rest) (h : step c x = some c') :
    ∃ a r, x = .lib a ∧ exec c.world f a = some r ∧ r.2 = [] ∧ c' = ⟨r.1, rest⟩ := by
  rcases step_cases h with ⟨a, f', rest', r, rfl, hst1, hr, rfl⟩ | ⟨_, _, _, _, _, _, hst1, -⟩ |
    ⟨_, _, _, _, hst1, -⟩ | ⟨e, w', rfl, -, rfl⟩
  · obtain ⟨rfl, rfl⟩ := (List.cons_eq_cons.mp (hst1.symm.trans hst)).imp Item.lib.inj id
    have hnil : r.2 = [] := List.append_left_eq_self.mp hst'
    exact ⟨a, r, rfl, hr, hnil, by rw [hnil]; rfl⟩
  · cases hst1.symm.trans hst
  · cases hst1.symm.trans hst
  · have hlen := congrArg List.length (hst.symm.trans hst')
    simp at hlen

/-- The state after `pd_io_init`, with every object initialised. -/
def World.init (k : Kernel) (signalFd : Fd) : World :=
  { now := k.clock, refs := 0, timers := heapInit fun _ => ⟨none, none, none⟩
    timer := fun _ => pdTimerInit, tcp := fun _ => pdTcpInit, server := fun _ => pdTcpServerInit
    op := fun _ _ => none, pendingCloses := .init, finishedTasks := [], poolTasks := []
    task := fun _ => none, afterTick := false
    kernel := { k with
      interest := fun fd => if fd = signalFd then some (.taskSignal, ⟨true, false⟩) else none }
    signalFd := signalFd, signaled := false, errno := 0, ptr := none, result := 0, log := [] }

/-- The configurations a run starts from: any open descriptors, any time. -/
def Cfg.Init (c : Cfg) : Prop :=
  ∃ k signalFd, k.clock < 2 ^ 64 ∧ k.isOpen signalFd = true ∧
    c = ⟨World.init k signalFd, [.app .main]⟩

/-- The configurations of the runs whose steps all meet `ok`. -/
def Run (ok : Cfg → Act → Prop) : Cfg → Prop := Machine.Reach step ok Cfg.Init

/-- The end of a run that is given step by step. -/
theorem Run.play {ok : Cfg → Act → Prop} [∀ c x, Decidable (ok c x)] {c c' : Cfg} (h : c.Init)
    (l : List Act) (hp : Machine.play step ok c l = some c') : Run ok c' :=
  (Machine.Reach.init h).play hp

/-- Every run. -/
def AnyStep (_ : Cfg) (_ : Act) : Prop := True

instance (c : Cfg) (x : Act) : Decidable (AnyStep c x) := .isTrue trivial

/-! ## Concrete runs -/

/-- Time 0, with these descriptors and `task_signal`'s open and nothing received. -/
def Cfg.start (fds : List Fd) : Cfg :=
  { world := World.init
      { isOpen := fun fd => fd ∈ (3 : Fd) :: fds, interest := fun _ => none
        sock := fun _ => { rx := [], fin := false }, clock := 0 } 3
    stack := [.app .main] }

theorem Cfg.start_init (fds : List Fd) : (Cfg.start fds).Init :=
  ⟨_, 3, Nat.two_pow_pos 64, by simp, rfl⟩

/-- An answer in which every system call gives `n`. -/
def Answer.ok (n : Nat) (events : List (Fd × Polled)) : Answer :=
  { sys := fun _ => .ok n, events := events, errno_pos := fun _ _ h => by cases h }

/-- An answer in which every system call fails with `EAGAIN`. -/
def Answer.again : Answer :=
  { sys := fun _ => .err EAGAIN, events := [], errno_pos := fun _ _ h => by cases h; decide }

/-- An answer in which every system call fails with this error. -/
def Answer.fails (e : Nat) (he : 0 < e) : Answer :=
  { sys := fun _ => .err e, events := [], errno_pos := fun _ _ h => by cases h; exact he }

/-- An answer in which the system call `i` fails. -/
def Answer.failsAt (n i e : Nat) (he : 0 < e) : Answer :=
  { sys := fun j => if j = i then .err e else .ok n, events := []
    errno_pos := fun j e' h => by
      split at h <;> cases h
      exact he }

end Pandio
